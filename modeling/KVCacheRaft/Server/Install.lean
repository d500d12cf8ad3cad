import KVCacheRaft.Server.Archive

/-!
# Installing a snapshot

`load_file` inserts every dumped key with the key itself as its value, and into a skip list that it
does not clear. The server that installs a snapshot ends with the table of the source; its map is the
source's exactly when it held nothing but entries of the source and the others map to themselves.
-/

namespace KVCacheRaft.KvServer

variable {A : Archives}

/-- The map and the table of `s` are those of the source. -/
def SameData (source s : KvServer) : Prop :=
  s.skipList.search_element = source.skipList.search_element ∧
    s.last_RequestId = source.last_RequestId

/-- Loading the snapshot of `source` into `target` does no harm: what the target holds, the source
maps to the same value, and what only the source holds is mapped to itself. -/
def LoadsInto (source target : KvServer) : Prop :=
  ∀ key, match target.skipList.search_element key with
    | some value => source.skipList.search_element key = some value
    | none => ∀ value, source.skipList.search_element key = some value → value = key

/-- What a server holds after it installed the snapshot of another. -/
lemma readSnapShotToInstall_makeSnapShot (source target : KvServer) (rand : ℕ → ℕ) :
    ∃ s, target.readSnapShotToInstall A rand (source.makeSnapShot A) = some s ∧
      s.last_RequestId = source.last_RequestId ∧
      ∀ key, s.skipList.search_element key = (target.skipList.search_element key).or
        (if (source.skipList.search_element key).isSome then some key else none) := by
  refine ⟨{ target with
    last_RequestId := source.last_RequestId
    skipList := target.skipList.load rand source.skipList.dump.1
    wellFormed := target.wellFormed.load rand }, ?_, rfl, fun key => ?_⟩
  · have hne : source.makeSnapShot A ≠ [] := A.server.save_ne_nil _
    rw [readSnapShotToInstall, if_neg hne, parseFromString, makeSnapShot, A.server.load_save]
    simp [loadFile, A.dump.save_ne_nil, A.dump.load_save]
  · rw [target.wellFormed.search_load]
    simp only [source.wellFormed.mem_dump]

/-- What a server is left with is the data of the source if and only if loading does no harm. -/
lemma sameData_iff {rand : ℕ → ℕ} {source target s : KvServer}
    (hs : target.readSnapShotToInstall A rand (source.makeSnapShot A) = some s) :
    SameData source s ↔ LoadsInto source target := by
  obtain ⟨s', hs', htable, hmap⟩ := readSnapShotToInstall_makeSnapShot (A := A) source target rand
  obtain rfl : s' = s := Option.some.inj (hs'.symm.trans hs)
  have hiff : SameData source s' ↔
      ∀ key, s'.skipList.search_element key = source.skipList.search_element key :=
    ⟨fun hd => congrFun hd.1, fun hd => ⟨funext hd, htable⟩⟩
  rw [hiff]
  refine forall_congr' fun key => ?_
  rw [hmap]
  cases target.skipList.search_element key with
  | some value => exact eq_comm
  | none =>
    cases source.skipList.search_element key with
    | none => simp
    | some value => simp [eq_comm]

/-- A target gets the data of the source by installing its snapshot if and only if loading does no
harm. -/
theorem install_sameData (A : Archives) (rand : ℕ → ℕ) (source target : KvServer) :
    (∃ s ∈ target.readSnapShotToInstall A rand (source.makeSnapShot A), SameData source s) ↔
      LoadsInto source target := by
  constructor
  · rintro ⟨s, hs, hd⟩
    exact (sameData_iff hs).mp hd
  · intro hl
    obtain ⟨s, hs, -⟩ := readSnapShotToInstall_makeSnapShot (A := A) source target rand
    exact ⟨s, hs, (sameData_iff hs).mpr hl⟩

/-- A new server that has executed one `Put` of value `[2]` under key `[1]`. -/
def onePut : KvServer :=
  (create (-1)).executePutOpOnKVDB 0
    { Operation := opPut, Key := [1], Value := [2], ClientId := [7], RequestId := 1 }

/-- A new server installs the snapshot of `onePut` and finds `[1]` under key `[1]`. -/
theorem not_install_sameData_onePut :
    ∃ s, (create (-1)).readSnapShotToInstall textArchives (fun _ => 0)
        (onePut.makeSnapShot textArchives) = some s ∧
      s.skipList.search_element [1] = some [1] ∧
      onePut.skipList.search_element [1] = some [2] ∧ ¬ SameData onePut s := by
  obtain ⟨s, hs, -, hmap⟩ :=
    readSnapShotToInstall_makeSnapShot (A := textArchives) onePut (create (-1)) fun _ => 0
  have hput : onePut.skipList.search_element [1] = some [2] :=
    (create (-1)).wellFormed.search_insert_set_element_self 0 [1] [2]
  have hload : s.skipList.search_element [1] = some [1] := by
    rw [hmap, hput]
    rfl
  refine ⟨s, hs, hload, hput, fun hd => ?_⟩
  have := congrFun hd.1 [1]
  rw [hload, hput] at this
  exact absurd this (by decide)

end KVCacheRaft.KvServer
