import Mathlib.Data.List.Basic
import Mathlib.Data.Int.Basic

/-!
# Self-delimiting codes

A code writes a value as a word and reads it back from the front of any word
that begins with it, together with what follows. The law is a field of the
code; codes are closed under pairs and under retracts. A local code reads what
it reads whatever follows, so it does not read a word that was cut short.
-/

set_option autoImplicit false

structure SelfCode (σ α : Type*) where
  encode : α → List σ
  decode : List σ → Option (α × List σ)
  decode_encode : ∀ a rest, decode (encode a ++ rest) = some (a,rest)

namespace SelfCode

variable {σ α β : Type*}

attribute [simp] decode_encode

/-- A code that tells two values apart writes something for each. -/
theorem encode_ne_nil (c : SelfCode σ α) {a b : α} (h : a ≠ b) : c.encode a ≠ [] := by
  intro hnil
  have ha := c.decode_encode a (c.encode b)
  have hb := c.decode_encode b []
  rw [hnil, List.nil_append] at ha
  rw [List.append_nil, ha] at hb
  exact h (Prod.mk.inj (Option.some.inj hb)).1

def unaryDecode [DecidableEq σ] (mark : σ) : List σ → Option (ℕ × List σ)
  | [] => none
  | c::cs => if c = mark then (unaryDecode mark cs).map (fun r => (r.1+1,r.2)) else some (0,cs)

/-- A number as that many marks and one stop symbol. -/
def unary [DecidableEq σ] (mark stop : σ) (h : stop ≠ mark) : SelfCode σ ℕ where
  encode n := List.replicate n mark ++ [stop]
  decode := unaryDecode mark
  decode_encode n rest := by
    induction n with
    | zero => simp [unaryDecode, h]
    | succ n ih =>
      simp only [List.replicate_succ, List.cons_append, unaryDecode, if_true, ih, Option.map_some]

def symbol : SelfCode σ σ where
  encode s := [s]
  decode
    | [] => none
    | c::cs => some (c,cs)
  decode_encode _ _ := rfl

def pair (ca : SelfCode σ α) (cb : SelfCode σ β) : SelfCode σ (α × β) where
  encode p := ca.encode p.1 ++ cb.encode p.2
  decode w := (ca.decode w).bind (fun r => (cb.decode r.2).map (fun t => ((r.1,t.1),t.2)))
  decode_encode p rest := by
    rw [List.append_assoc, ca.decode_encode, Option.bind_some, cb.decode_encode, Option.map_some]

def retract (f : α → β) (g : β → Option α) (h : ∀ a, g (f a) = some a)
    (cb : SelfCode σ β) : SelfCode σ α where
  encode a := cb.encode (f a)
  decode w := (cb.decode w).bind (fun r => (g r.1).map (fun a => (a,r.2)))
  decode_encode a rest := by
    rw [cb.decode_encode, Option.bind_some, h, Option.map_some]

/-- An integer as its positive and its negative part. -/
def integer (c : SelfCode σ ℕ) : SelfCode σ ℤ :=
  retract (fun z : ℤ => (z.toNat,(-z).toNat)) (fun p => some ((p.1:ℤ)-p.2))
    (by intro z; simp only [Option.some.injEq]; omega) (pair c c)

end SelfCode

/-- A code whose reader depends on the symbols it takes only. -/
structure LocalCode (σ α : Type*) extends SelfCode σ α where
  takes : ∀ {w a rest}, decode w = some (a,rest) →
    ∃ word, w = word ++ rest ∧ ∀ tail, decode (word ++ tail) = some (a,tail)

namespace LocalCode

variable {σ α β : Type*}

theorem truncated (c : LocalCode σ α) {a : α} {w : List σ} (hw : w <+: c.encode a)
    (hne : w ≠ c.encode a) : c.decode w = none := by
  obtain ⟨missing,hm⟩ := hw
  cases hd : c.decode w with
  | none => rfl
  | some r =>
    obtain ⟨word,rfl,hword⟩ := c.takes hd
    have h := hword (r.2 ++ missing)
    rw [← List.append_assoc, hm, ← List.append_nil (c.encode a), c.decode_encode] at h
    have hnil : missing = [] := by
      have h := congrArg (fun o => o.map Prod.snd) h
      simp only [Option.map_some, Option.some.injEq] at h
      exact (List.append_eq_nil_iff.mp h.symm).2
    rw [hnil, List.append_nil] at hm
    exact absurd hm hne

def symbol : LocalCode σ σ where
  toSelfCode := .symbol
  takes := by
    intro w a rest h
    cases w with
    | nil => cases h
    | cons c cs =>
      cases h
      exact ⟨[a],rfl,fun _ => rfl⟩

theorem unaryDecode_takes [DecidableEq σ] (mark : σ) {w : List σ} {n : ℕ} {rest : List σ}
    (h : SelfCode.unaryDecode mark w = some (n,rest)) :
    ∃ word, w = word ++ rest ∧
      ∀ tail, SelfCode.unaryDecode mark (word ++ tail) = some (n,tail) := by
  induction w generalizing n with
  | nil => cases h
  | cons c cs ih =>
    simp only [SelfCode.unaryDecode] at h
    by_cases hc : c = mark
    · simp only [if_pos hc, Option.map_eq_some_iff, Prod.mk.injEq] at h
      obtain ⟨⟨m,r⟩,hm,rfl,rfl⟩ := h
      obtain ⟨word,rfl,hword⟩ := ih hm
      exact ⟨c::word,rfl,fun tail => by
        simp only [List.cons_append, SelfCode.unaryDecode, if_pos hc, hword, Option.map_some]⟩
    · simp only [if_neg hc, Option.some.injEq, Prod.mk.injEq] at h
      obtain ⟨rfl,rfl⟩ := h
      exact ⟨[c],rfl,fun tail => by
        simp only [List.cons_append, List.nil_append, SelfCode.unaryDecode, if_neg hc]⟩

def unary [DecidableEq σ] (mark stop : σ) (h : stop ≠ mark) : LocalCode σ ℕ where
  toSelfCode := .unary mark stop h
  takes := unaryDecode_takes mark

def pair (ca : LocalCode σ α) (cb : LocalCode σ β) : LocalCode σ (α × β) where
  toSelfCode := .pair ca.toSelfCode cb.toSelfCode
  takes := by
    intro w p rest h
    simp only [SelfCode.pair, Option.bind_eq_some_iff, Option.map_eq_some_iff] at h
    obtain ⟨⟨a,r⟩,ha,⟨b,t⟩,hb,he⟩ := h
    cases he
    obtain ⟨u,rfl,hu⟩ := ca.takes ha
    obtain ⟨v,rfl,hv⟩ := cb.takes hb
    refine ⟨u ++ v,by rw [List.append_assoc],fun tail => ?_⟩
    simp only [SelfCode.pair]
    rw [List.append_assoc, hu, Option.bind_some, hv, Option.map_some]

/-- A pair is read one part after the other. -/
theorem pair_decode_bind {γ : Type*} (ca : LocalCode σ α) (cb : LocalCode σ β) (w : List σ)
    (k : (α × β) × List σ → Option γ) : ((pair ca cb).decode w).bind k =
      (ca.decode w).bind fun r => (cb.decode r.2).bind fun t => k ((r.1,t.1),t.2) := by
  simp only [pair, SelfCode.pair]
  cases ca.decode w with
  | none => rfl
  | some r =>
    rw [Option.bind_some, Option.bind_some]
    cases cb.decode r.2 <;> rfl

def retract (f : α → β) (g : β → Option α) (h : ∀ a, g (f a) = some a)
    (cb : LocalCode σ β) : LocalCode σ α where
  toSelfCode := .retract f g h cb.toSelfCode
  takes := by
    intro w a rest hd
    simp only [SelfCode.retract, Option.bind_eq_some_iff, Option.map_eq_some_iff] at hd
    obtain ⟨⟨b,r⟩,hb,a',ha,he⟩ := hd
    cases he
    obtain ⟨u,rfl,hu⟩ := cb.takes hb
    refine ⟨u,rfl,fun tail => ?_⟩
    simp only [SelfCode.retract]
    rw [hu, Option.bind_some, ha, Option.map_some]

end LocalCode
