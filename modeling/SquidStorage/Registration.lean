/-
Datanodes that connect one after the other: what `persistedVersionMap_` becomes.

Each `registerDataNodeFiles` call reports a map of versions, and a version is taken
over if it is the highest one seen for its path (`getElem?_registerDataNodeFiles`).
Over a sequence of calls the result is a running maximum, so the order of the calls
does not matter.  But an unknown path counts as version 0, and a file reported with
version 0 is never taken over.

* `registration_reconciles_iff` — the map ends as the maximum of everything given
  exactly when every reported path was persisted before or has a version above 0;
* `registration_misses_new_file` — a datanode that reports a file with version 0.
-/
import SquidStorage.ReplicationRuns

open BigEndian LastWrite RunningMax

namespace Squid

/-- The arguments of one `registerDataNodeFiles` call. -/
structure Registration where
  datanodeName : Bytes
  datanodeSession : SessionId
  fileVersionMap : StrMap Int32

namespace ReplicationManager

/-- A sequence of `registerDataNodeFiles` calls. -/
def registerAll (rm : ReplicationManager) (calls : List Registration) : ReplicationManager :=
  calls.foldl (fun rm call =>
    rm.registerDataNodeFiles call.datanodeName call.datanodeSession call.fileVersionMap) rm

/-! ### A sequence of calls is a running maximum -/

theorem getElem?_registerAll (rm : ReplicationManager) (calls : List Registration) (p : Bytes) :
    (rm.registerAll calls).persistedVersionMap[p]?
      = raiseAll 0 rm.persistedVersionMap[p]? (calls.filterMap (·.fileVersionMap[p]?)) := by
  induction calls generalizing rm with
  | nil => rfl
  | cons call calls ih =>
    rw [registerAll, List.foldl_cons]
    refine (ih _).trans ?_
    rw [getElem?_registerDataNodeFiles]
    cases hreport : call.fileVersionMap[p]? with
    | none => simp [hreport, raiseAll]
    | some v => simp [hreport, raiseAll]

/-- **The order does not matter**: the calls are compared path by path, and there only
the set of the versions counts. -/
theorem registerAll_perm (rm : ReplicationManager) {calls calls' : List Registration}
    (h : calls.Perm calls') :
    (rm.registerAll calls).persistedVersionMap = (rm.registerAll calls').persistedVersionMap := by
  refine Std.ExtTreeMap.ext_getElem? fun p => ?_
  rw [getElem?_registerAll, getElem?_registerAll]
  exact raiseAll_congr 0 _ fun v => (h.filterMap _).mem_iff

end ReplicationManager

/-! ### The maximum of what was given -/

/-- A version given for a path: persisted before the calls, or reported in one of them. -/
def Given (initial : StrMap Int32) (calls : List Registration) (p : Bytes) (v : Int32) : Prop :=
  initial[p]? = some v ∨ ∃ call ∈ calls, call.fileVersionMap[p]? = some v

/-- The map is defined on the paths something was given for, and holds for each the
maximum of what was given. -/
structure HoldsMaximum (initial : StrMap Int32) (calls : List Registration)
    (final : StrMap Int32) : Prop where
  defined : ∀ p, p ∈ final ↔ ∃ v, Given initial calls p v
  maximum : ∀ p v, final[p]? = some v →
    Given initial calls p v ∧ ∀ u, Given initial calls p u → u ≤ v

/-- Some call reports the path. -/
def Reported (calls : List Registration) (p : Bytes) : Prop :=
  ∃ call ∈ calls, p ∈ call.fileVersionMap

/-- Some call reports the path with a version above 0. -/
def ReportedAboveZero (calls : List Registration) (p : Bytes) : Prop :=
  ∃ call ∈ calls, ∃ v, call.fileVersionMap[p]? = some v ∧ 0 < v

namespace ReplicationManager

variable {rm : ReplicationManager} {calls : List Registration} {p : Bytes}

theorem exists_given_iff {initial : StrMap Int32} :
    (∃ v, Given initial calls p v) ↔ p ∈ initial ∨ Reported calls p := by
  simp only [Given, Reported, mem_iff_exists_entry]
  constructor
  · rintro ⟨v, hold | ⟨call, hcall, hv⟩⟩
    · exact .inl ⟨v, hold⟩
    · exact .inr ⟨call, hcall, v, hv⟩
  · rintro (⟨v, hold⟩ | ⟨call, hcall, v, hv⟩)
    · exact ⟨v, .inl hold⟩
    · exact ⟨v, .inr ⟨call, hcall, hv⟩⟩

/-- What the map holds after the calls is the maximum of what was given, always. -/
theorem maximum_registerAll {v : Int32}
    (h : (rm.registerAll calls).persistedVersionMap[p]? = some v) :
    Given rm.persistedVersionMap calls p v ∧
      ∀ u, Given rm.persistedVersionMap calls p u → u ≤ v := by
  rw [getElem?_registerAll, raiseAll_eq_some_iff] at h
  obtain ⟨hfrom, hall⟩ := h
  have hreports : ∀ u call, call ∈ calls → call.fileVersionMap[p]? = some u → u ≤ v :=
    fun u call hcall hu => hall u (List.mem_filterMap.mpr ⟨call, hcall, hu⟩)
  rcases hfrom with ⟨hmem, hlt⟩ | hold
  · obtain ⟨call, hcall, hv⟩ := List.mem_filterMap.mp hmem
    refine ⟨.inr ⟨call, hcall, hv⟩, ?_⟩
    rintro u (hu | ⟨call, hcall, hu⟩)
    · rw [hu, Option.getD_some] at hlt
      exact Int32.le_of_lt hlt
    · exact hreports u call hcall hu
  · refine ⟨.inl hold, ?_⟩
    rintro u (hu | ⟨call, hcall, hu⟩)
    · exact Std.le_of_eq (Option.some.inj (hu.symm.trans hold))
    · exact hreports u call hcall hu

/-- A path is in the map after the calls if it was there before or is reported with a
version above 0. -/
theorem mem_registerAll :
    p ∈ (rm.registerAll calls).persistedVersionMap
      ↔ p ∈ rm.persistedVersionMap ∨ ReportedAboveZero calls p := by
  -- it is missing when it was missing and no report is above the default
  have hnone := raiseAll_eq_none_iff 0 rm.persistedVersionMap[p]?
    (calls.filterMap (·.fileVersionMap[p]?))
  rw [← getElem?_registerAll, no_entry_iff, no_entry_iff] at hnone
  rw [← not_iff_not, hnone, not_or]
  refine and_congr Iff.rfl ⟨?_, ?_⟩
  · rintro hall ⟨call, hcall, v, hv, hpos⟩
    exact Int32.not_lt.mpr (hall v (List.mem_filterMap.mpr ⟨call, hcall, hv⟩)) hpos
  · intro habove v hmem
    obtain ⟨call, hcall, hv⟩ := List.mem_filterMap.mp hmem
    exact Int32.not_lt.mp fun hpos => habove ⟨call, hcall, v, hv, hpos⟩

/-- **Registration reconciles to the maximum**, whatever was persisted and whatever the
datanodes report, exactly when no unknown path is reported with nothing above version
0; and the result never depends on the order of the calls. -/
theorem registration_reconciles_iff (rm : ReplicationManager) (calls : List Registration) :
    (HoldsMaximum rm.persistedVersionMap calls (rm.registerAll calls).persistedVersionMap
      ↔ ∀ p, Reported calls p → p ∈ rm.persistedVersionMap ∨ ReportedAboveZero calls p) ∧
    ∀ calls', calls.Perm calls' →
      (rm.registerAll calls).persistedVersionMap
        = (rm.registerAll calls').persistedVersionMap := by
  refine ⟨⟨fun h p hp => ?_, fun h => ⟨fun p => ?_, fun p v => maximum_registerAll⟩⟩,
    fun calls' => registerAll_perm rm⟩
  · exact mem_registerAll.mp ((h.defined p).mpr (exists_given_iff.mpr (.inr hp)))
  · rw [mem_registerAll, exists_given_iff]
    constructor
    · rintro (hold | ⟨call, hcall, v, hv, -⟩)
      · exact .inl hold
      · exact .inr ⟨call, hcall, mem_of_entry hv⟩
    · rintro (hold | hp)
      · exact .inl hold
      · exact h p hp

/-- Two datanodes that report one file with different versions, in either order. -/
theorem registration_reconciles_two :
    let rm : ReplicationManager := { replicationFactor := 2 }
    let older : Registration := ⟨[120], 1, (∅ : StrMap Int32).insert [97] 2⟩
    let newer : Registration := ⟨[121], 2, (∅ : StrMap Int32).insert [97] 5⟩
    HoldsMaximum ∅ [older, newer] (rm.registerAll [older, newer]).persistedVersionMap ∧
      (rm.registerAll [older, newer]).persistedVersionMap
        = (rm.registerAll [newer, older]).persistedVersionMap := by
  intro rm older newer
  obtain ⟨hmax, horder⟩ := registration_reconciles_iff rm [older, newer]
  refine ⟨hmax.mpr ?_, horder [newer, older] (List.Perm.swap newer older [])⟩
  rintro p ⟨call, hcall, hp⟩
  -- only the path `a` is reported
  have ha : [97] = p := by
    rcases List.mem_pair.mp hcall with rfl | rfl <;> simpa [older, newer] using hp
  subst ha
  exact .inr ⟨older, List.mem_cons_self, 2, by decide, by decide⟩

/-- **A file that is missing**: the only datanode that connects reports `a` with
version 0, and the map has no entry for `a`. -/
theorem registration_misses_new_file :
    let rm : ReplicationManager := { replicationFactor := 2 }
    let call : Registration := ⟨[120], 1, (∅ : StrMap Int32).insert [97] 0⟩
    Given ∅ [call] [97] 0 ∧ [97] ∉ (rm.registerAll [call]).persistedVersionMap ∧
      ¬ HoldsMaximum ∅ [call] (rm.registerAll [call]).persistedVersionMap := by
  intro rm call
  have hgiven : Given ∅ [call] [97] 0 := .inr ⟨call, List.mem_cons_self, by decide⟩
  have hmissing : [97] ∉ (rm.registerAll [call]).persistedVersionMap := by decide
  exact ⟨hgiven, hmissing, fun h => hmissing ((h.defined [97]).mpr ⟨0, hgiven⟩)⟩

end ReplicationManager

end Squid
