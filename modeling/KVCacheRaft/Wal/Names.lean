import KVCacheRaft.Codec.Decimal
import KVCacheRaft.Wal.Segments

/-!
# The names of segment files

`ListSegments` finds the segments by the names of the files, which it takes apart with `rfind`, `find`
and `stoull`. It finds every segment under the name that was made for it, and no two segments have one
name, so that the files may be taken for the segments they are named after.
-/

namespace KVCacheRaft

open Codecs

namespace SegmentName

/-- `openSegmentName` and `closedSegmentName`, in `m_walDir`. -/
def fileName : SegmentName → List Char
  | closed first last =>
    ['l', 'o', 'g', '_'] ++ (Nat.toDigits 10 first ++ ('_' :: Nat.toDigits 10 last))
  | inprogress first =>
    ['l', 'o', 'g', '_', 'i', 'n', 'p', 'r', 'o', 'g', 'r', 'e', 's', 's', '_'] ++
      Nat.toDigits 10 first

/-- What `ListSegments` makes of a name: `some none` when it passes over it, none when `stoull`
throws. -/
def ofFileName (name : List Char) : Option (Option SegmentName) :=
  if ['l', 'o', 'g', '_', 'i', 'n', 'p', 'r', 'o', 'g', 'r', 'e', 's', 's', '_'] <+: name then
    (stoull (name.drop 15)).map fun first => some (inprogress first)
  else if ['l', 'o', 'g', '_'] <+: name then
    let rest := name.drop 4
    if '_' ∈ rest then
      (stoull (rest.takeWhile (· ≠ '_'))).bind fun first =>
        (stoull ((rest.dropWhile (· ≠ '_')).drop 1)).map fun last => some (closed first last)
    else some none
  else some none

/-- The indices are of 64 bits. -/
def Fits : SegmentName → Prop
  | closed first last => first < 2 ^ 64 ∧ last < 2 ^ 64
  | inprogress first => first < 2 ^ 64

instance : (name : SegmentName) → Decidable name.Fits
  | closed _ _ => inferInstanceAs (Decidable (_ ∧ _))
  | inprogress first => inferInstanceAs (Decidable (first < _))

variable {name name' : SegmentName}

/-- The first number of a name ends at the underscore. -/
lemma takeWhile_digits (first : ℕ) (rest : List Char) :
    (Nat.toDigits 10 first ++ '_' :: rest).takeWhile (· ≠ '_') = Nat.toDigits 10 first ∧
      (Nat.toDigits 10 first ++ '_' :: rest).dropWhile (· ≠ '_') = '_' :: rest := by
  have hall : ∀ c ∈ Nat.toDigits 10 first, decide (c ≠ '_') = true := by
    intro c hc
    rw [decide_eq_true_iff]
    rintro rfl
    exact Nat.underscore_not_in_toDigits hc
  rw [List.takeWhile_append_of_pos hall, List.dropWhile_append_of_pos hall]
  simp

/-- A name that fits is read back. -/
lemma ofFileName_fileName (h : name.Fits) : ofFileName name.fileName = some (some name) := by
  cases name with
  | inprogress first =>
    have hread := stoull_append (r := []) h fun c hc => by cases hc
    rw [List.append_nil] at hread
    rw [ofFileName, fileName, if_pos (List.prefix_append _ _)]
    show (stoull (Nat.toDigits 10 first)).map _ = _
    rw [hread]
    rfl
  | closed first last =>
    obtain ⟨hfirst, hlast⟩ := h
    obtain ⟨c, s, hs, hc⟩ := exists_toDigits first
    -- the name goes on with a digit
    have hno : ¬ ['l', 'o', 'g', '_', 'i', 'n', 'p', 'r', 'o', 'g', 'r', 'e', 's', 's', '_'] <+:
        fileName (closed first last) := by
      intro hpre
      rw [fileName, hs] at hpre
      simp only [List.cons_append, List.nil_append, List.cons_prefix_cons, true_and] at hpre
      rw [← hpre.1] at hc
      exact absurd hc (by decide)
    have hread := stoull_append (r := []) hfirst fun c hc => by cases hc
    have hread' := stoull_append (r := []) hlast fun c hc => by cases hc
    rw [List.append_nil] at hread hread'
    obtain ⟨htake, hdrop⟩ := takeWhile_digits first (Nat.toDigits 10 last)
    have hrest : (fileName (closed first last)).drop 4 =
        Nat.toDigits 10 first ++ '_' :: Nat.toDigits 10 last := rfl
    have hlog : ['l', 'o', 'g', '_'] <+: fileName (closed first last) := List.prefix_append _ _
    rw [ofFileName, if_neg hno, if_pos hlog]
    simp only [hrest]
    rw [if_pos (by simp), htake, hdrop, hread]
    simp only [Option.bind_some, List.drop_one, List.tail_cons, hread', Option.map_some]

/-- Two segments have two names. -/
lemma fileName_inj (h : name.Fits) (h' : name'.Fits) (heq : name.fileName = name'.fileName) :
    name = name' := by
  have hname := ofFileName_fileName h
  rw [heq, ofFileName_fileName h'] at hname
  exact (Option.some.inj (Option.some.inj hname)).symm

end SegmentName

/-- `ListSegments`, over the names of the files: the segments found, each with the name of its file. -/
def listSegmentNames (dir : List (List Char)) : Option (List (SegmentName × List Char)) :=
  (dir.mapM fun path => (SegmentName.ofFileName path).map fun info => (info, path)).map fun found =>
    (found.filterMap fun x => x.1.map fun info => (info, x.2)).insertionSort fun a b =>
      b.1.before a.1 = false

/-- In a directory of segments `ListSegments` finds every segment, in its order and under its name, and
no two segments share a file. -/
theorem listSegmentNames_eq {files : List SegmentFile} (h : ∀ file ∈ files, file.1.Fits) :
    listSegmentNames (files.map fun file => file.1.fileName) =
        some ((listSegments files).map fun file => (file.1, file.1.fileName)) ∧
      ∀ file ∈ files, ∀ file' ∈ files, file.1.fileName = file'.1.fileName → file.1 = file'.1 := by
  constructor
  · have hread : ∀ files : List SegmentFile, (∀ file ∈ files, file.1.Fits) →
        ((files.map fun file => file.1.fileName).mapM fun path =>
          (SegmentName.ofFileName path).map fun info => (info, path)) =
        some (files.map fun file => (some file.1, file.1.fileName)) := by
      intro files h
      induction files with
      | nil => rfl
      | cons file files ih =>
        rw [List.map_cons, List.mapM_cons, SegmentName.ofFileName_fileName (h file List.mem_cons_self),
          ih fun f hf => h f (List.mem_cons_of_mem _ hf)]
        rfl
    rw [listSegmentNames, hread files h, Option.map_some, listSegments]
    have hfound : ((files.map fun file => (some file.1, file.1.fileName)).filterMap fun x =>
        x.1.map fun info => (info, x.2)) = files.map fun file => (file.1, file.1.fileName) := by
      rw [List.filterMap_map]
      exact List.filterMap_eq_map ▸ rfl
    rw [hfound]
    congr 1
    have hsort := List.map_insertionSort (fun a b : SegmentFile => b.1.before a.1 = false)
      (fun a b : SegmentName × List Char => b.1.before a.1 = false)
      (fun file : SegmentFile => (file.1, file.1.fileName)) files fun _ _ _ _ => Iff.rfl
    exact hsort.symm
  · exact fun file hfile file' hfile' => SegmentName.fileName_inj (h file hfile) (h file' hfile')

/-- A segment closed and one in progress, in the other order in the directory. -/
theorem listSegmentNames_eq_two :
    listSegmentNames ([((.inprogress 1001 : SegmentName), ([] : Bytes)), (.closed 1 1000, [])].map
        fun file => file.1.fileName) =
      some ((listSegments [(.inprogress 1001, []), (.closed 1 1000, [])]).map fun file =>
        (file.1, file.1.fileName)) ∧
      ∀ file ∈ [((.inprogress 1001 : SegmentName), ([] : Bytes)), (.closed 1 1000, [])],
        ∀ file' ∈ [((.inprogress 1001 : SegmentName), ([] : Bytes)), (.closed 1 1000, [])],
        file.1.fileName = file'.1.fileName → file.1 = file'.1 :=
  listSegmentNames_eq (by decide)

end KVCacheRaft
