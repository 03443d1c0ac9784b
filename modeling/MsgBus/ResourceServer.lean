import MsgBus.Lib.MarkedWords
import MsgBus.Types

/-!
# The files of a resource server

A resource server opens or reports the files below a configured root. The
locator is joined to the root and made canonical by the file system, and the
text of the result has to start with the text of the root. A canonical path is
a list of names; its text has a slash before each of them.
-/

set_option autoImplicit false

namespace MsgBus

/-! ## Paths -/

abbrev Path := List Char

structure FileName where
  chars : List Char
  ne_nil : chars ≠ []
  no_slash : '/' ∉ chars

/-- What `std::filesystem::canonical` returns: an absolute path without dots. -/
abbrev CanonicalPath := List FileName

namespace CanonicalPath

def words (names : CanonicalPath) : List Path := names.map FileName.chars

def native (names : CanonicalPath) : Path :=
  if names.isEmpty then ['/'] else MarkedWords.flat '/' names.words

theorem words_no_slash (names : CanonicalPath) : ∀ w ∈ names.words, '/' ∉ w := by
  intro w hw
  obtain ⟨name,-,rfl⟩ := List.mem_map.mp hw
  exact name.no_slash

theorem words_injective {l r : CanonicalPath} (h : l.words = r.words) : l = r := by
  apply List.map_injective_iff.mpr _ h
  rintro ⟨lc,_,_⟩ ⟨rc,_,_⟩ hc
  cases hc
  rfl

end CanonicalPath

namespace Path

def isAbsolute (path : Path) : Bool := path.head? = some '/'

def relativePath (path : Path) : Path := path.dropWhile (· = '/')

/-- `operator/` of `std::filesystem::path`. -/
def append (path sub : Path) : Path :=
  if isAbsolute sub then sub
  else if path.isEmpty || path.getLast? = some '/' then path ++ sub
  else path ++ '/'::sub

end Path

structure Url where
  scheme : Option String
  path : Option Path
  arguments : List (String × String) := []

namespace Url

def hasScheme (locator : Url) (scheme : String) : Bool := locator.scheme = some scheme

def hasPath (locator : Url) (path : String) : Bool := locator.path = some path.toList

def argument (locator : Url) (name : String) : Option String :=
  (locator.arguments.find? fun a => a.1 = name).map Prod.snd

end Url

/-! ## The server -/

inductive FileStatus where
  | absent | directory | file
  deriving DecidableEq, Repr

/-- The source of a blob: one of the driver, a generated one or a part of a file. -/
inductive ReadIo (ι : Type) where
  | driver (io : ι)
  | randomByte (size : ℤ)
  | singleByte (size : ℤ) (value : Byte)
  | sequence (size : ℤ)
  | file (path : Path) (offs size : Option ℤ)

/-- The file system, the driver of the server and the library functions it
calls. A canonical path that cannot be found is none, as is an exception. -/
structure ResourceEnv (ι : Type) where
  canonical : Path → Option CanonicalPath
  currentRootPath : Path
  status : Path → Option FileStatus
  isOpen : Path → Bool
  fromString : String → Option ℤ
  totalSize : ReadIo ι → ℤ
  hasResource : Url → Option Bool := fun _ => none
  getResourceIo : EndpointId → Url → Option ι := fun _ _ => none
  getBlobTimeout : EndpointId → Url → ℤ → ℤ := fun _ _ size => size.tdiv 1024
  getBlobPriority : EndpointId → Url → MessagePriority → MessagePriority := fun _ _ p => p

structure ResourceServer where
  rootPath : Path := []
  deriving DecidableEq, Repr

namespace ResourceServer

variable {ι : Type} (env : ResourceEnv ι) (server : ResourceServer)

/-- `set_file_root`; the exception of a path that cannot be found ends the program. -/
def setFileRoot (root : Path) : Option ResourceServer :=
  (env.canonical root).map fun names => ⟨names.native⟩

def isContained (filePath : Path) : Bool := server.rootPath.isPrefixOf filePath

def getFilePath (locator : Url) : Path :=
  match locator.path with
  | none => []
  | some locPath =>
    if server.rootPath.isEmpty then
      if locPath.isAbsolute then locPath else env.currentRootPath.append locPath
    else if locPath.isAbsolute then
      ((env.canonical (server.rootPath.append locPath.relativePath)).map
        CanonicalPath.native).getD []
    else
      ((env.canonical (server.rootPath.append locPath)).map CanonicalPath.native).getD []

def hasResource (locator : Url) : Bool :=
  match env.hasResource locator with
  | some true => true
  | some false => false
  | none =>
    if locator.hasScheme "eagires" then
      locator.hasPath "/zeroes" || locator.hasPath "/ones" ||
        locator.hasPath "/sequence" || locator.hasPath "/random"
    else if locator.hasScheme "file" then
      let filePath := server.getFilePath env locator
      if server.isContained filePath then env.status filePath = some .file else false
    else false

def generatedIo (locator : Url) (bytes : ℤ) : Option (ReadIo ι) :=
  if locator.hasPath "/random" then some (.randomByte bytes)
  else if locator.hasPath "/zeroes" then some (.singleByte bytes 0)
  else if locator.hasPath "/ones" then some (.singleByte bytes 1)
  else if locator.hasPath "/sequence" then some (.sequence bytes)
  else none

def getResource (locator : Url) (endpointId : EndpointId) (priority : MessagePriority) :
    Option (ReadIo ι) × ℤ × MessagePriority :=
  let readIo := match env.getResourceIo endpointId locator with
    | some io => some (.driver io)
    | none =>
      if locator.hasScheme "eagires" then
        ((locator.argument "count").bind env.fromString).bind (generatedIo locator)
      else if locator.hasScheme "file" then
        let filePath := server.getFilePath env locator
        if server.isContained filePath then
          if env.isOpen filePath then
            some (.file filePath (env.fromString ((locator.argument "offs").getD ""))
              (env.fromString ((locator.argument "size").getD "")))
          else none
        else none
      else none
  (readIo,(readIo.map fun io => env.getBlobTimeout endpointId locator (env.totalSize io)).getD 0,
    env.getBlobPriority endpointId locator priority)

/-! ## Containment -/

section Containment

variable (root : CanonicalPath)

def underRoot : ResourceServer := ⟨root.native⟩

/-- The root itself or a path below it. -/
def Within (path : Path) : Prop := ∃ names : CanonicalPath, path = names.native ∧ root <+: names

/-- The path leads into a sibling of the root, or of something below it, whose
name begins with the last name of the root. -/
def PastRoot (names : CanonicalPath) : Prop := MarkedWords.Overruns root.words names.words

/-- A file is opened for the endpoint or reported to it. -/
def Serves (server : ResourceServer) (endpointId : EndpointId) (locator : Url)
    (path : Path) : Prop :=
  (∃ priority offs size,
    (server.getResource env locator endpointId priority).1 = some (.file path offs size)) ∨
  (env.hasResource locator = none ∧ locator.hasScheme "file" = true ∧
    path = server.getFilePath env locator ∧ server.hasResource env locator = true)

/-- The locator names the file, which is there to be opened or reported. -/
def Names (endpointId : EndpointId) (locator : Url) (names : CanonicalPath) : Prop :=
  locator.hasScheme "file" = true ∧
  (∃ locPath, locator.path = some locPath ∧ env.canonical (root.native.append
    (if locPath.isAbsolute then locPath.relativePath else locPath)) = some names) ∧
  ((env.getResourceIo endpointId locator = none ∧ env.isOpen names.native = true) ∨
    (env.hasResource locator = none ∧ env.status names.native = some .file))

variable {env root}

theorem native_ne_nil (names : CanonicalPath) : names.native ≠ [] := by
  unfold CanonicalPath.native
  cases names with
  | nil => exact List.cons_ne_nil _ _
  | cons name names => exact List.cons_ne_nil _ _

theorem words_prefix_iff (names : CanonicalPath) :
    root.words <+: names.words ↔ root <+: names := by
  constructor
  · intro h
    rw [List.prefix_iff_eq_take] at h ⊢
    apply CanonicalPath.words_injective
    rw [h]
    simp [CanonicalPath.words, List.map_take]
  · rintro ⟨rest,rfl⟩
    exact ⟨CanonicalPath.words rest,(List.map_append ..).symm⟩

theorem native_injective {l r : CanonicalPath} (h : l.native = r.native) : l = r := by
  have hone (name : FileName) (names : CanonicalPath) :
      ['/'] ≠ MarkedWords.flat '/' (CanonicalPath.words (name::names)) := by
    intro hflat
    exact name.ne_nil (List.append_eq_nil_iff.mp (List.cons_inj_right _ |>.mp hflat).symm).1
  cases l with
  | nil =>
    cases r with
    | nil => rfl
    | cons name names => exact absurd h (hone name names)
  | cons first rest =>
    cases r with
    | nil => exact absurd h.symm (hone first rest)
    | cons name names =>
      exact CanonicalPath.words_injective (MarkedWords.flat_injective
        (CanonicalPath.words_no_slash _) (CanonicalPath.words_no_slash _) h)

/-- The comparison of texts that decides on containment. -/
theorem isContained_native (names : CanonicalPath) :
    (underRoot root).isContained names.native = true ↔ root <+: names ∨ PastRoot root names := by
  rw [isContained, List.isPrefixOf_iff_prefix]
  cases root with
  | nil =>
    have hslash : ['/'] <+: names.native := by
      cases names with
      | nil => exact List.prefix_refl _
      | cons name names => exact ⟨_,rfl⟩
    exact iff_of_true hslash (Or.inl List.nil_prefix)
  | cons first rest =>
    cases names with
    | nil =>
      refine iff_of_false ?_ ?_
      · intro h
        have hlen := h.length_le
        simp [underRoot, CanonicalPath.native, CanonicalPath.words, MarkedWords.flat,
          first.ne_nil] at hlen
      · rintro (h | h)
        · simp at h
        · exact MarkedWords.overruns_nil_right _ h
    | cons name names =>
      rw [← words_prefix_iff]
      exact MarkedWords.flat_prefix_iff (CanonicalPath.words_no_slash _)
        (CanonicalPath.words_no_slash _)

theorem getFilePath_root (locator : Url) : (underRoot root).getFilePath env locator =
    ((locator.path.bind fun locPath => env.canonical (root.native.append
      (if locPath.isAbsolute then locPath.relativePath else locPath))).map
        CanonicalPath.native).getD [] := by
  have hroot : (underRoot root).rootPath.isEmpty = false := by
    simpa [underRoot] using native_ne_nil root
  cases h : locator.path with
  | none => simp [getFilePath, h]
  | some locPath =>
    simp only [getFilePath, h, hroot, Option.bind_some, Bool.false_eq_true, if_false]
    split_ifs <;> rfl

/-- A file that passes the comparison has a canonical path. -/
theorem contained_names {locator : Url}
    (h : (underRoot root).isContained ((underRoot root).getFilePath env locator) = true) :
    ∃ names, (∃ locPath, locator.path = some locPath ∧ env.canonical (root.native.append
        (if locPath.isAbsolute then locPath.relativePath else locPath)) = some names) ∧
      (underRoot root).getFilePath env locator = names.native ∧
      (root <+: names ∨ PastRoot root names) := by
  cases hp : locator.path.bind fun locPath => env.canonical (root.native.append
      (if locPath.isAbsolute then locPath.relativePath else locPath)) with
  | none =>
    rw [getFilePath_root, hp, isContained, List.isPrefixOf_iff_prefix] at h
    exact absurd (List.prefix_nil.mp h) (native_ne_nil root)
  | some names =>
    have hpath : (underRoot root).getFilePath env locator = names.native := by
      rw [getFilePath_root, hp]
      rfl
    rw [hpath, isContained_native] at h
    exact ⟨names,Option.bind_eq_some_iff.mp hp,hpath,h⟩

theorem file_not_eagires {locator : Url} (h : locator.hasScheme "file" = true) :
    locator.hasScheme "eagires" = false := by
  simp only [Url.hasScheme, decide_eq_true_eq] at h
  simp [Url.hasScheme, h]

theorem getResource_file {server : ResourceServer} {locator : Url} {endpointId : EndpointId}
    {priority : MessagePriority} {path : Path} : (∃ offs size,
      (server.getResource env locator endpointId priority).1 = some (.file path offs size)) ↔
    env.getResourceIo endpointId locator = none ∧ locator.hasScheme "file" = true ∧
      server.isContained (server.getFilePath env locator) = true ∧
      env.isOpen (server.getFilePath env locator) = true ∧
      path = server.getFilePath env locator := by
  constructor
  · rintro ⟨offs,size,h⟩
    simp only [getResource] at h
    cases hio : env.getResourceIo endpointId locator with
    | some io => simp [hio] at h
    | none =>
      simp only [hio] at h
      split_ifs at h with h1 h2 h3 h4
      · obtain ⟨bytes,-,hb⟩ := Option.bind_eq_some_iff.mp h
        unfold generatedIo at hb
        split_ifs at hb <;> cases hb
      · cases h
        exact ⟨rfl,h2,h3,h4,rfl⟩
  · rintro ⟨hio,hs,hc,ho,rfl⟩
    refine ⟨env.fromString ((locator.argument "offs").getD ""),
      env.fromString ((locator.argument "size").getD ""),?_⟩
    simp only [getResource, hio, file_not_eagires hs, hs, hc, ho, Bool.false_eq_true, if_false,
      if_true]

theorem hasResource_file {server : ResourceServer} {locator : Url}
    (hd : env.hasResource locator = none) (hs : locator.hasScheme "file" = true) :
    server.hasResource env locator = true ↔
      server.isContained (server.getFilePath env locator) = true ∧
      env.status (server.getFilePath env locator) = some .file := by
  simp [hasResource, hd, file_not_eagires hs, hs]

/-- What is served is what the locator names and the comparison lets through. -/
theorem serves_iff (endpointId : EndpointId) (locator : Url) (path : Path) :
    Serves env (underRoot root) endpointId locator path ↔
      ∃ names, Names env root endpointId locator names ∧ path = names.native ∧
        (root <+: names ∨ PastRoot root names) := by
  constructor
  · rintro (⟨priority,hfile⟩ | ⟨hd,hs,rfl,hr⟩)
    · obtain ⟨hio,hs,hc,ho,rfl⟩ := getResource_file.mp hfile
      obtain ⟨names,hnames,hpath,hlet⟩ := contained_names hc
      rw [hpath] at ho ⊢
      exact ⟨names,⟨hs,hnames,Or.inl ⟨hio,ho⟩⟩,rfl,hlet⟩
    · obtain ⟨hc,hst⟩ := (hasResource_file hd hs).mp hr
      obtain ⟨names,hnames,hpath,hlet⟩ := contained_names hc
      rw [hpath] at hst ⊢
      exact ⟨names,⟨hs,hnames,Or.inr ⟨hd,hst⟩⟩,rfl,hlet⟩
  · rintro ⟨names,⟨hs,hnames,hthere⟩,rfl,hlet⟩
    have hpath : (underRoot root).getFilePath env locator = names.native := by
      rw [getFilePath_root, Option.bind_eq_some_iff.mpr hnames]
      rfl
    have hc := (isContained_native names).mpr hlet
    rcases hthere with ⟨hio,ho⟩ | ⟨hd,hst⟩
    · exact Or.inl ⟨.normal,getResource_file.mpr
        ⟨hio,hs,by rwa [hpath],by rwa [hpath],hpath.symm⟩⟩
    · exact Or.inr ⟨hd,hs,hpath.symm,
        (hasResource_file hd hs).mpr ⟨by rwa [hpath],by rwa [hpath]⟩⟩

theorem past_not_within {names : CanonicalPath} (h : PastRoot root names) : ¬ root <+: names := by
  rintro ⟨rest,rfl⟩
  obtain ⟨front,r,f,tail,hr,hf,-,hne⟩ := h
  rw [CanonicalPath.words, List.map_append, ← CanonicalPath.words, hr, List.append_assoc,
    List.append_cancel_left_eq, List.singleton_append, List.cons.injEq] at hf
  exact hne hf.1

/-- The files served for a locator stay inside the root exactly if the locator
names no file past the root. -/
theorem served_within_iff (env : ResourceEnv ι) (root : CanonicalPath) (endpointId : EndpointId)
    (locator : Url) :
    (∀ path, Serves env (underRoot root) endpointId locator path → Within root path) ↔
      ∀ names, Names env root endpointId locator names → ¬ PastRoot root names := by
  constructor
  · intro h names hnames hpast
    obtain ⟨names',hnative,hin⟩ :=
      h names.native ((serves_iff endpointId locator _).mpr ⟨names,hnames,rfl,Or.inr hpast⟩)
    rw [← native_injective hnative] at hin
    exact past_not_within hpast hin
  · intro h path hserved
    obtain ⟨names,hnames,rfl,hin | hpast⟩ := (serves_iff endpointId locator path).mp hserved
    · exact ⟨names,rfl,hin⟩
    · exact absurd hpast (h names hnames)

end Containment

/-! ## A sibling of the root -/

def srv : FileName := ⟨"srv".toList,by decide,by decide⟩
def data : FileName := ⟨"data".toList,by decide,by decide⟩
def data2 : FileName := ⟨"data2".toList,by decide,by decide⟩
def secret : FileName := ⟨"secret".toList,by decide,by decide⟩

/-- A file system with the file `/srv/data2/secret`. -/
def siblingEnv : ResourceEnv Unit where
  canonical path := if path = "/srv/data/../data2/secret".toList then some [srv,data2,secret]
    else if path = "/srv/data".toList then some [srv,data] else none
  currentRootPath := ['/']
  status path := if path = "/srv/data2/secret".toList then some .file else some .absent
  isOpen path := path = "/srv/data2/secret".toList
  fromString _ := none
  totalSize _ := 0

def siblingUrl : Url := { scheme := some "file", path := some "/../data2/secret".toList }

/-- The root is `/srv/data`; the file opened lies in `/srv/data2`. -/
theorem sibling_served :
    setFileRoot siblingEnv "/srv/data".toList = some (underRoot [srv,data]) ∧
    Serves siblingEnv (underRoot [srv,data]) 5 siblingUrl "/srv/data2/secret".toList ∧
    ¬ Within [srv,data] "/srv/data2/secret".toList := by
  refine ⟨by decide,Or.inl ⟨.normal,none,none,by rfl⟩,?_⟩
  rintro ⟨names,hnames,hin⟩
  have hsecret : names = [srv,data2,secret] :=
    native_injective (hnames.symm.trans (by decide))
  rw [hsecret] at hin
  obtain ⟨rest,hrest⟩ := hin
  simp only [List.cons_append, List.cons.injEq] at hrest
  exact absurd (congrArg FileName.chars hrest.2.1) (by decide)

end ResourceServer

end MsgBus
