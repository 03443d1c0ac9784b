import MsgBus.BlobIo
import MsgBus.Lib.FragmentSource

/-!
# Windows of files

A file is opened as the source of a blob with an offset and a size that come
from the request. They are clamped when the file has been measured; fragments
are then read from the stream at an offset within the window. A stream that
has failed to read stays so.
-/

set_option autoImplicit false

namespace MsgBus

/-- `std::fstream`, opened to be read. -/
structure FileStream where
  content : Block
  pos : ℕ := 0
  eof : Bool := false
  fail : Bool := false
  deriving DecidableEq, Repr

namespace FileStream

def seekBeg (file : FileStream) (pos : ℤ) : FileStream :=
  let file := { file with eof := false }
  if file.fail then file
  else if 0 ≤ pos then { file with pos := pos.toNat }
  else { file with fail := true }

def seekEnd (file : FileStream) : FileStream :=
  let file := { file with eof := false }
  if file.fail then file else { file with pos := file.content.length }

def tellg (file : FileStream) : ℤ := if file.fail then -1 else file.pos

/-- What has been read is as long as `gcount` tells. -/
def read (file : FileStream) (count : ℕ) : Block × FileStream :=
  if file.eof || file.fail then ([],{ file with fail := true })
  else
    let data := (file.content.drop file.pos).take count
    (data,{ file with
      pos := file.pos+data.length
      eof := data.length < count
      fail := data.length < count })

/-- The stream can be read and has this content. -/
structure Good (content : Block) (file : FileStream) : Prop where
  content : file.content = content
  fail : file.fail = false

/-- What lies within the file is read, and the stream stays good. -/
theorem Good.read {content : Block} {file : FileStream} (h : Good content file) {pos : ℤ}
    {count : ℕ} (hpos : 0 ≤ pos) (hend : pos.toNat+count ≤ content.length) :
    ((file.seekBeg pos).read count).1 = (content.drop pos.toNat).take count ∧
      Good content ((file.seekBeg pos).read count).2 := by
  have hlength : ((content.drop pos.toNat).take count).length = count := by
    rw [List.length_take, List.length_drop]
    omega
  simp only [seekBeg, h.fail, Bool.false_eq_true, if_false, if_pos hpos, FileStream.read, h.content,
    Bool.or_false]
  refine ⟨trivial,rfl,?_⟩
  simp [hlength]

end FileStream

structure FileBlobIo where
  file : FileStream
  offs : ℤ := 0
  size : ℤ := 0
  deriving DecidableEq, Repr

namespace FileBlobIo

def ofFile (file : FileStream) (offs size : Option ℤ) : FileBlobIo :=
  let file := file.seekEnd
  let length := file.tellg
  let size := match size with
    | some size => if length ≠ 0 then min length size else size
    | none => length
  { file, size, offs := match offs with
      | some offs => min size offs
      | none => 0 }

def totalSize (io : FileBlobIo) : ℤ := io.size-io.offs

def isAtEod (io : FileBlobIo) (offs : ℕ) : Bool := io.totalSize ≤ offs

/-- The destination has a size of `size`; its head may be shorter. -/
def fetchFragment (io : FileBlobIo) (offs size : ℕ) : Block × FileBlobIo :=
  let (data,file) := (io.file.seekBeg (io.offs+offs)).read
    (min (size : ℤ) (io.size-io.offs-offs)).toNat
  (data,{ io with file })

instance : SourceBlobIo FileBlobIo where
  totalSize io := io.totalSize.toNat
  isAtEod := isAtEod
  fetchFragment := fetchFragment

/-! ## The window -/

open FragmentSource (fetchSplit)

/-- The window of a file is that of the request, clamped to the file, and it is
what consecutive calls fetch. -/
structure WindowServed (content : Block) (offs size : Option ℤ) : Prop where
  bounds : 0 ≤ (ofFile { content } offs size).offs ∧
    (ofFile { content } offs size).offs ≤ (ofFile { content } offs size).size ∧
    (ofFile { content } offs size).size ≤ content.length
  first : (ofFile { content } offs size).offs =
    min (ofFile { content } offs size).size (offs.getD 0)
  last : (ofFile { content } offs size).size = min (content.length : ℤ) (size.getD content.length)
  total : (ofFile { content } offs size).totalSize =
    (ofFile { content } offs size).size-(ofFile { content } offs size).offs
  bytes : ∀ lens : List ℕ, (ofFile { content } offs size).totalSize ≤ lens.sum →
    (fetchSplit fetchFragment (ofFile { content } offs size) 0 lens).flatten =
      (content.take (ofFile { content } offs size).size.toNat).drop
        (ofFile { content } offs size).offs.toNat

/-- Nothing that has been requested is negative, and no size of an empty file
is positive. -/
def Requestable (content : Block) (offs size : Option ℤ) : Prop :=
  (∀ n ∈ size, 0 ≤ n ∧ (content = [] → n = 0)) ∧ ∀ n ∈ offs, 0 ≤ n

variable {content : Block} {offs size : Option ℤ}

theorem ofFile_file (offs size : Option ℤ) :
    (ofFile { content } offs size).file.Good content := ⟨rfl,rfl⟩

theorem ofFile_offs (offs size : Option ℤ) : (ofFile { content } offs size).offs =
    match offs with
    | some offs => min (ofFile { content } offs size).size offs
    | none => 0 := rfl

theorem ofFile_size (offs size : Option ℤ) : (ofFile { content } offs size).size =
    match size with
    | some size => if (content.length : ℤ) ≠ 0 then min (content.length : ℤ) size else size
    | none => content.length := rfl

/-- The end of the window is in the file for the sizes that can be requested. -/
theorem size_iff (offs size : Option ℤ) : (0 ≤ (ofFile { content } offs size).size ∧
    (ofFile { content } offs size).size ≤ content.length) ↔
      ∀ n ∈ size, 0 ≤ n ∧ (content = [] → n = 0) := by
  rw [ofFile_size, ← List.length_eq_zero_iff]
  cases size with
  | none => simp
  | some n =>
    simp only [Option.mem_def, Option.some.injEq, forall_eq']
    split_ifs <;> omega

theorem bounds_iff : (0 ≤ (ofFile { content } offs size).offs ∧
    (ofFile { content } offs size).offs ≤ (ofFile { content } offs size).size ∧
    (ofFile { content } offs size).size ≤ content.length) ↔ Requestable content offs size := by
  rw [Requestable, ← size_iff offs size, ofFile_offs]
  cases offs with
  | none => simp
  | some o =>
    simp only [Option.mem_def, Option.some.injEq, forall_eq']
    omega

theorem size_eq_min (h : Requestable content offs size) : (ofFile { content } offs size).size =
    min (content.length : ℤ) (size.getD content.length) := by
  have hsize := h.1
  rw [ofFile_size]
  rw [← List.length_eq_zero_iff] at hsize
  cases size with
  | none => simp
  | some n =>
    simp only [Option.mem_def, Option.some.injEq, forall_eq'] at hsize
    simp only [Option.getD_some]
    split_ifs <;> omega

theorem offs_eq_min (h : Requestable content offs size) : (ofFile { content } offs size).offs =
    min (ofFile { content } offs size).size (offs.getD 0) := by
  obtain ⟨hbegin,hend,-⟩ := bounds_iff.mpr h
  cases offs with
  | none => exact (min_eq_right hend).symm
  | some o => rfl

/-- An opened file from which a window is read. -/
structure Opened (content : Block) (window : FileBlobIo) (io : FileBlobIo) : Prop where
  good : io.file.Good content
  offs : io.offs = window.offs
  size : io.size = window.size

theorem window_length {window : FileBlobIo} (h : 0 ≤ window.offs ∧ window.offs ≤ window.size ∧
    window.size ≤ content.length) :
    (((content.take window.size.toNat).drop window.offs.toNat).length : ℤ) = window.totalSize := by
  rw [List.length_drop, List.length_take, totalSize]
  omega

/-- Each fragment of a window that lies within the file is read in full. -/
theorem serves {window : FileBlobIo} (h : 0 ≤ window.offs ∧ window.offs ≤ window.size ∧
    window.size ≤ content.length) : FragmentSource.Serves fetchFragment (Opened content window)
      ((content.take window.size.toNat).drop window.offs.toNat) := by
  obtain ⟨hbegin,hle,hend⟩ := id h
  have hlength := window_length h
  have hread (io : FileBlobIo) (offs len : ℕ) (hio : Opened content window io)
      (hoffs : offs ≤ ((content.take window.size.toNat).drop window.offs.toNat).length) :
      (io.fetchFragment offs len).1 =
        (content.drop (window.offs.toNat+offs)).take
          (min len (window.size.toNat-(window.offs.toNat+offs))) ∧
      Opened content window (io.fetchFragment offs len).2 := by
    rw [totalSize] at hlength
    have hpos : (window.offs+offs).toNat = window.offs.toNat+offs := by omega
    have hcount : (min (len : ℤ) (window.size-window.offs-offs)).toNat =
        min len (window.size.toNat-(window.offs.toNat+offs)) := by omega
    obtain ⟨hdata,hgood⟩ := hio.good.read (show 0 ≤ window.offs+offs by omega)
      (show (window.offs+offs).toNat+(min (len : ℤ) (window.size-window.offs-offs)).toNat ≤
        content.length by omega)
    rw [hpos, hcount] at hdata
    simp only [fetchFragment, hio.offs, hio.size]
    exact ⟨hcount ▸ hdata,hgood,rfl,rfl⟩
  constructor
  · intro io offs len hio hoffs
    rw [(hread io offs len hio hoffs).1, List.drop_drop, List.drop_take, List.take_take]
  · intro io offs len hio hoffs
    exact (hread io offs len hio hoffs).2

/-- A file is served as it should be just for the offsets and sizes that can be
requested of it. -/
theorem file_window_iff (content : Block) (offs size : Option ℤ) :
    WindowServed content offs size ↔ Requestable content offs size := by
  constructor
  · intro h
    exact bounds_iff.mp h.bounds
  · intro h
    have hbounds := bounds_iff.mpr h
    refine ⟨hbounds,offs_eq_min h,size_eq_min h,rfl,fun lens hsum => ?_⟩
    refine (serves hbounds).fetchSplit_all ⟨ofFile_file offs size,rfl,rfl⟩ ?_
    have hlength := window_length hbounds
    omega

/-- An offset before the file is taken as it is. -/
theorem negative_offset_unserved : ¬ ∀ (content : Block) (offs size : Option ℤ),
    WindowServed content offs size := by
  intro h
  have hbegin := (h [7,8] (some (-1)) none).bounds.1
  exact absurd hbegin (by decide)

end FileBlobIo

end MsgBus
