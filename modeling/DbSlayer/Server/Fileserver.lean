import DbSlayer.CLib.Numbers
import DbSlayer.Foundation.Segments
import Mathlib.Data.List.DropRight

/-! # Static files

`slayer_http_fileserver.c`. The file system is a parameter: what `realpath` resolves,
what `apr_stat` says, and what an opened file gives to a read. The target of a request
has to sit under the base directory; the source compares the bytes of both resolved
paths, and here is what that means for their components.
-/

namespace DbSlayer.Server

open Foundation

/-! ## The file system -/

inductive FileType where
  | regular
  | other
deriving DecidableEq, Repr

/-- What `apr_stat` returns. -/
structure FileStat where
  filetype : FileType
  size : Nat
deriving DecidableEq, Repr

structure FileSystem where
  /-- `realpath`. -/
  realpath : Bytes → Option Bytes
  /-- `apr_stat`. -/
  stat : Bytes → Option FileStat
  /-- `apr_file_open`, with what one `apr_file_read` of so many bytes returns. -/
  openRead : Bytes → Option (Nat → Bytes)
  read_le : ∀ path read, openRead path = some read → ∀ size, (read size).length ≤ size

/-! ## The function -/

/-- `mtypes`. -/
def mtypes : List (Bytes × Bytes) := [
  (bytes ".html", bytes "text/html"),
  (bytes ".png", bytes "image/png"),
  (bytes ".gif", bytes "image/gif"),
  (bytes ".jpg", bytes "image/jpeg"),
  (bytes ".xml", bytes "text/xml"),
  (bytes ".xsl", bytes "text/xml")]

/-- The type of a file by what follows its last dot. -/
def contentType (query : Bytes) : Bytes :=
  let suffix := ch '.' :: query.rtakeWhile (· ≠ ch '.')
  if ch '.' ∈ query then
    ((mtypes.find? fun mtype => strcasecmp suffix mtype.1 = 0).map Prod.snd).getD
      (bytes "text/plain")
  else bytes "text/plain"

/-- What is handed to `slayer_http_handle_response`, and the file that was opened. -/
structure FileReply where
  responseCode : Int32
  mimeType : Bytes
  message : Bytes
  messageSize : Int64
  opened : Option Bytes
deriving DecidableEq, Repr

def notFound : FileReply := ⟨404, bytes "text/plain; charset=utf-8", bytes "Not Found", -1, none⟩

/-- The test that a resolved path sits under the resolved base directory. -/
def contained (resolved resolvedBase : Bytes) : Bool :=
  let baselen := strlen resolvedBase
  strncmp resolved resolvedBase baselen = 0 &&
    (resolved.getD baselen 0 = ch '/' || resolved.getD baselen 0 = 0)

/-- The path below the base directory. -/
def requestedPath (query : Bytes) : Bytes :=
  if strcmp query (bytes "/") = 0 then bytes "/index.html" else query

/-- The end of the function, for a path that passed the test. -/
def serveFile (fs : FileSystem) (query resolved : Bytes) : FileReply :=
  match fs.stat resolved, fs.openRead resolved with
  | some stat, some read =>
      if stat.filetype = .regular then
        let output := if stat.size > 0 then read stat.size else []
        ⟨200, contentType query, output, Int64.ofNat output.length, some resolved⟩
      else notFound
  | _, _ => notFound

/-- `slayer_http_fileserver`. -/
def slayerHttpFileserver (fs : FileSystem) (basedir query : Option Bytes) : FileReply :=
  match basedir, query with
  | some basedir, some query =>
      if (strstr query (bytes "..")).isSome then notFound
      else
        let query := requestedPath query
        match fs.realpath basedir, fs.realpath (basedir ++ query) with
        | some resolvedBase, some resolved =>
            if contained resolved resolvedBase then serveFile fs query resolved else notFound
        | _, _ => notFound
  | _, _ => notFound

/-! ## Canonical paths -/

/-- A name that a canonical path may go through. -/
structure IsComponent (name : Bytes) : Prop where
  ne_nil : name ≠ []
  no_slash : ch '/' ∉ name
  nulFree : NulFree name
  ne_dot : name ≠ bytes "."
  ne_dotdot : name ≠ bytes ".."

/-- The absolute path of some components; the root has none. -/
def pathText (components : List Bytes) : Bytes :=
  if components = [] then bytes "/" else Segments.joined (ch '/') components

theorem pathText_of_ne_nil {components : List Bytes} (hne : components ≠ []) :
    pathText components = Segments.joined (ch '/') components := if_neg hne

theorem nulFree_pathText {components : List Bytes}
    (hcomponents : ∀ name ∈ components, IsComponent name) : NulFree (pathText components) := by
  have hslash : ch '/' ≠ 0 := by decide
  rw [pathText]
  split
  · decide
  · intro hzero
    obtain ⟨name, hname, hmem⟩ := List.mem_flatMap.mp hzero
    rcases List.mem_cons.mp hmem with heq | hmem
    · exact hslash heq.symm
    · exact (hcomponents name hname).nulFree hmem

/-! ## The test -/

/-- The test holds exactly when the base is the front of the path and the cut is in front of a
slash or at the end. -/
theorem contained_iff_boundary {resolved resolvedBase : Bytes} (hresolved : NulFree resolved)
    (hbase : NulFree resolvedBase) :
    contained resolved resolvedBase = true ↔
      ∃ rest, resolved = resolvedBase ++ rest ∧ Segments.AtBoundary (ch '/') rest := by
  have htake : NulFree (resolved.take resolvedBase.length) :=
    fun hzero => hresolved (List.mem_of_mem_take hzero)
  have hprefix : strncmp resolved resolvedBase resolvedBase.length = 0 ↔
      resolved.take resolvedBase.length = resolvedBase := by
    rw [strncmp, List.take_length, strcmp_eq_zero_iff htake hbase]
  simp only [contained, strlen_of_nulFree hbase, Bool.and_eq_true, Bool.or_eq_true,
    decide_eq_true_eq, hprefix]
  refine ⟨?_, ?_⟩
  · rintro ⟨heq, hnext⟩
    have hsplit := List.take_append_drop resolvedBase.length resolved
    rw [heq] at hsplit
    refine ⟨resolved.drop resolvedBase.length, hsplit.symm, ?_⟩
    intro c hc
    have hc' : resolved[resolvedBase.length]? = some c := by rwa [← List.head?_drop]
    have hne : c ≠ 0 := by
      intro hzero
      exact hresolved (hzero ▸ List.mem_of_getElem? hc')
    rw [List.getD_eq_getElem?_getD, hc', Option.getD_some] at hnext
    simpa using hnext.resolve_right hne
  · rintro ⟨rest, rfl, hrest⟩
    refine ⟨List.take_left, ?_⟩
    cases rest with
    | nil => exact .inr (by simp)
    | cons c rest =>
        have hslash : c = ch '/' := by simpa using stops_cons.mp hrest
        exact .inl (by simp [hslash])

/-- Under a base directory that is not the root, the test is about components. -/
theorem contained_iff_prefix {base path : List Bytes} (hbase : ∀ name ∈ base, IsComponent name)
    (hpath : ∀ name ∈ path, IsComponent name) (hroot : base ≠ []) :
    contained (pathText path) (pathText base) = true ↔ base <+: path := by
  rw [contained_iff_boundary (nulFree_pathText hpath) (nulFree_pathText hbase),
    pathText_of_ne_nil hroot]
  by_cases hne : path = []
  · -- The root is under no other directory.
    subst hne
    obtain ⟨name, more, rfl⟩ := List.exists_cons_of_ne_nil hroot
    have hname := (hbase name List.mem_cons_self).ne_nil
    refine ⟨?_, fun hprefix => absurd (List.prefix_nil.mp hprefix) hroot⟩
    rintro ⟨rest, heq, -⟩
    rw [Segments.joined_cons] at heq
    have hempty : [] = name ++ Segments.joined (ch '/') more ++ rest := (List.cons.inj heq).2
    simp [hname] at hempty
  · rw [pathText_of_ne_nil hne]
    exact Segments.joined_prefix_iff (fun name hname => (hbase name hname).no_slash)
      fun name hname => (hpath name hname).no_slash

/-- Under the root the test finds nothing but the root, since it looks for a second slash
behind the first. -/
theorem contained_root_iff {path : List Bytes} (hpath : ∀ name ∈ path, IsComponent name) :
    contained (pathText path) (pathText []) = true ↔ path = [] := by
  rw [contained_iff_boundary (nulFree_pathText hpath) (nulFree_pathText (by simp))]
  refine ⟨?_, ?_⟩
  · rintro ⟨rest, heq, hrest⟩
    by_contra hne
    obtain ⟨name, more, rfl⟩ := List.exists_cons_of_ne_nil hne
    have hname := hpath name List.mem_cons_self
    obtain ⟨c, tail, rfl⟩ := List.exists_cons_of_ne_nil hname.ne_nil
    rw [pathText_of_ne_nil hne, Segments.joined_cons] at heq
    obtain rfl : c :: (tail ++ Segments.joined (ch '/') more) = rest := (List.cons.inj heq).2
    have hslash : c = ch '/' := by simpa using stops_cons.mp hrest
    exact hname.no_slash (hslash ▸ List.mem_cons_self)
  · rintro rfl
    exact ⟨[], by simp, stops_nil⟩

/-! ## Requests -/

/-- The target of a request is under the base directory exactly when the test passes; only
then it is read; and when it is a regular file that opens, a request without two dots in
a row is answered with what the read returned. -/
structure ContainmentExact (fs : FileSystem) (basedir query : Bytes) (base path : List Bytes) :
    Prop where
  test : contained (pathText path) (pathText base) = true ↔ base <+: path
  inside : ∀ file, (slayerHttpFileserver fs (some basedir) (some query)).opened = some file →
    file = pathText path ∧ base <+: path
  served : strstr query (bytes "..") = none → base <+: path → ∀ stat read,
    fs.stat (pathText path) = some stat → stat.filetype = .regular →
    fs.openRead (pathText path) = some read →
      slayerHttpFileserver fs (some basedir) (some query) =
        ⟨200, contentType (requestedPath query), if stat.size > 0 then read stat.size else [],
          Int64.ofNat (if stat.size > 0 then read stat.size else []).length,
          some (pathText path)⟩

theorem serveFile_opened {fs : FileSystem} {query resolved file : Bytes}
    (hopened : (serveFile fs query resolved).opened = some file) : file = resolved := by
  unfold serveFile at hopened
  split at hopened
  · split at hopened
    · exact (Option.some.inj hopened).symm
    · simp [notFound] at hopened
  · simp [notFound] at hopened

/-- For all paths that resolve to canonical ones, containment is exact if and only if the
base directory is not the root, or the target is the root itself. -/
theorem containment_exact_iff (fs : FileSystem) (basedir query : Bytes) (base path : List Bytes)
    (hbase : ∀ name ∈ base, IsComponent name) (hpath : ∀ name ∈ path, IsComponent name)
    (hbasedir : fs.realpath basedir = some (pathText base))
    (htarget : fs.realpath (basedir ++ requestedPath query) = some (pathText path)) :
    ContainmentExact fs basedir query base path ↔ base ≠ [] ∨ path = [] := by
  refine ⟨fun hexact => ?_, fun hroot => ?_⟩
  · by_contra hnot
    obtain ⟨hbase', hne⟩ := not_or.mp hnot
    obtain rfl := not_not.mp hbase'
    exact hne ((contained_root_iff hpath).mp (hexact.test.mpr List.nil_prefix))
  · have htest : contained (pathText path) (pathText base) = true ↔ base <+: path := by
      by_cases hbase' : base = []
      · subst hbase'
        obtain rfl := hroot.resolve_left (by simp)
        exact ⟨fun _ => List.nil_prefix, fun _ => (contained_root_iff hpath).mpr rfl⟩
      · exact contained_iff_prefix hbase hpath hbase'
    have hcall : slayerHttpFileserver fs (some basedir) (some query) =
        if (strstr query (bytes "..")).isSome then notFound
        else if contained (pathText path) (pathText base) then
          serveFile fs (requestedPath query) (pathText path)
        else notFound := by
      simp only [slayerHttpFileserver, hbasedir, htarget]
    refine ⟨htest, ?_, ?_⟩
    · intro file hopened
      rw [hcall] at hopened
      split at hopened
      next => simp [notFound] at hopened
      next =>
        split at hopened
        next hin => exact ⟨serveFile_opened hopened, htest.mp hin⟩
        next => simp [notFound] at hopened
    · intro hdots hprefix stat read hstat hregular hopen
      rw [hcall, hdots, if_pos (htest.mpr hprefix)]
      simp [serveFile, hstat, hopen, hregular]

/-- A file system with one directory and one file, each under one more spelling. -/
def oneFile (basedir base target file contents : Bytes) : FileSystem where
  realpath path := if path = basedir then some base else if path = target then some file else none
  stat path := if path = file then some ⟨.regular, contents.length⟩ else none
  openRead path := if path = file then some fun size => contents.take size else none
  read_le := by
    intro path read hopen size
    obtain ⟨-, hread⟩ := Option.ite_none_right_eq_some.mp hopen
    obtain rfl := Option.some.inj hread
    exact List.length_take_le size contents

theorem containment_exact_below :
    ContainmentExact (oneFile (bytes "www") (bytes "/srv") (bytes "www/a.PNG") (bytes "/srv/a.PNG")
      (bytes "hi")) (bytes "www") (bytes "/a.PNG") [bytes "srv"] [bytes "srv", bytes "a.PNG"] := by
  have hsrv : IsComponent (bytes "srv") := by constructor <;> decide
  have hname : IsComponent (bytes "a.PNG") := by constructor <;> decide
  refine (containment_exact_iff _ (bytes "www") (bytes "/a.PNG") _ _ ?_ ?_ (by decide)
    (by decide)).mpr (.inl (by decide))
  · simpa using hsrv
  · simpa using ⟨hsrv, hname⟩

/-- With the root as base directory, a file below it is not found. -/
theorem containment_root :
    let fs := oneFile (bytes "/") (bytes "/") (bytes "//index.html") (bytes "/index.html")
      (bytes "hi")
    fs.realpath (bytes "/") = some (pathText []) ∧
      fs.realpath (bytes "/" ++ requestedPath (bytes "/")) = some (pathText [bytes "index.html"]) ∧
      IsComponent (bytes "index.html") ∧ [] <+: [bytes "index.html"] ∧
      slayerHttpFileserver fs (some (bytes "/")) (some (bytes "/")) = notFound ∧
      ¬ ContainmentExact fs (bytes "/") (bytes "/") [] [bytes "index.html"] := by
  have hname : IsComponent (bytes "index.html") := by constructor <;> decide
  have hnames : ∀ name ∈ [bytes "index.html"], IsComponent name := by simpa using hname
  refine ⟨by decide, by decide, hname, List.nil_prefix, by decide +kernel, fun hexact => ?_⟩
  have hroot := (contained_root_iff hnames).mp (hexact.test.mpr List.nil_prefix)
  simp at hroot

end DbSlayer.Server
