/-
The planner of a synchronisation (`planSync`).

The planner walks the local map while it erases from a copy of the remote one: what
both sides have is compared, what only the local side has is created, and what is left
of the copy at the end is downloaded.

* `planSync_eq` — the loop as two lists, one of the local paths and one of the others;
* `mem_planSync` — a path's operation depends on its own two entries only (`planAt`);
* `planSync_correct` — no path twice, no plan exactly for equal maps, and a plan that is
  carried out leaves the newer version of every path on both sides.
-/
import SquidStorage.Formatter
import SquidStorage.KeyedLoop

open BigEndian KeyedLoop

namespace Squid

inductive SyncAction where
  | upload
  | download
  | createRemote
deriving DecidableEq, Repr

structure SyncOp where
  action : SyncAction
  filePath : Bytes
  version : Int32
deriving DecidableEq, Repr

/-- One pass of the loop over the local map: the operations so far, and what is left of
the copy of the remote map. -/
def planEntry (s : List SyncOp × StrMap Int32) (entry : Bytes × Int32) :
    List SyncOp × StrMap Int32 :=
  match s.2[entry.1]? with
  | some remoteVersion =>
    let ops :=
      if remoteVersion < entry.2 then s.1 ++ [⟨.upload, entry.1, entry.2⟩]
      else if entry.2 < remoteVersion then s.1 ++ [⟨.download, entry.1, remoteVersion⟩]
      else s.1
    (ops, s.2.erase entry.1)
  | none => (s.1 ++ [⟨.createRemote, entry.1, entry.2⟩], s.2)

def planSync (localMap remoteMap : StrMap Int32) : List SyncOp :=
  let s := localMap.toList.foldl planEntry ([], remoteMap)
  s.1 ++ s.2.toList.map fun r => ⟨.download, r.1, r.2⟩

/-- An operation is carried out on the local and the remote map. -/
def SyncOp.execute (maps : StrMap Int32 × StrMap Int32) (op : SyncOp) :
    StrMap Int32 × StrMap Int32 :=
  match op.action with
  | .upload | .createRemote => (maps.1, maps.2.insert op.filePath op.version)
  | .download => (maps.1.insert op.filePath op.version, maps.2)

/-- A plan is carried out. -/
def executePlan (plan : List SyncOp) (maps : StrMap Int32 × StrMap Int32) :
    StrMap Int32 × StrMap Int32 :=
  plan.foldl SyncOp.execute maps

/-! ### One path -/

/-- What is planned for a path, from its entries in the two maps. -/
def planAt (path : Bytes) : Option Int32 → Option Int32 → Option SyncOp
  | some l, some r =>
    if r < l then some ⟨.upload, path, l⟩
    else if l < r then some ⟨.download, path, r⟩
    else none
  | some l, none => some ⟨.createRemote, path, l⟩
  | none, some r => some ⟨.download, path, r⟩
  | none, none => none

/-- The newer of two entries. -/
def newest : Option Int32 → Option Int32 → Option Int32
  | some l, some r => some (if l < r then r else l)
  | some l, none => some l
  | none, r => r

theorem newest_self (v : Option Int32) : newest v v = v := by
  cases v with
  | none => rfl
  | some v => simp [newest]

/-- Nothing is planned exactly for equal entries. -/
theorem planAt_eq_none_iff (path : Bytes) (l r : Option Int32) :
    planAt path l r = none ↔ l = r := by
  cases l with
  | none => cases r <;> simp [planAt]
  | some l =>
    cases r with
    | none => simp [planAt]
    | some r =>
      rw [Option.some.injEq]
      constructor
      · intro h
        by_cases hrl : r < l
        · simp [planAt, hrl] at h
        · by_cases hlr : l < r
          · simp [planAt, hrl, hlr] at h
          · exact Int32.le_antisymm (Int32.not_lt.mp hrl) (Int32.not_lt.mp hlr)
      · rintro rfl
        simp [planAt]

theorem filePath_of_planAt {path : Bytes} {l r : Option Int32} {op : SyncOp}
    (h : planAt path l r = some op) : op.filePath = path := by
  cases l with
  | none =>
    cases r with
    | none => simp [planAt] at h
    | some r => simp only [planAt, Option.some.injEq] at h; rw [← h]
  | some l =>
    cases r with
    | none => simp only [planAt, Option.some.injEq] at h; rw [← h]
    | some r =>
      simp only [planAt] at h
      split at h
      · rw [← Option.some.inj h]
      · split at h
        · rw [← Option.some.inj h]
        · simp at h

/-- The two entries of a path. -/
def entriesAt (path : Bytes) (maps : StrMap Int32 × StrMap Int32) : Option Int32 × Option Int32 :=
  (maps.1[path]?, maps.2[path]?)

/-- Carrying out the operation planned for a path leaves the newer entry on both sides. -/
theorem entriesAt_execute {path : Bytes} {l r : Option Int32} {op : SyncOp}
    (hplan : planAt path l r = some op) {maps : StrMap Int32 × StrMap Int32}
    (hmaps : entriesAt path maps = (l, r)) :
    entriesAt path (op.execute maps) = (newest l r, newest l r) := by
  obtain ⟨hl, hr⟩ := Prod.mk.inj hmaps
  cases l with
  | none =>
    cases r with
    | none => simp [planAt] at hplan
    | some r =>
      obtain rfl := Option.some.inj hplan
      simp [entriesAt, SyncOp.execute, hr, newest]
  | some l =>
    cases r with
    | none =>
      obtain rfl := Option.some.inj hplan
      simp [entriesAt, SyncOp.execute, hl, newest]
    | some r =>
      simp only [planAt] at hplan
      by_cases hrl : r < l
      · -- upload: the local version is the newer one
        rw [if_pos hrl] at hplan
        obtain rfl := Option.some.inj hplan
        have hlr : ¬ l < r := Int32.not_lt.mpr (Int32.le_of_lt hrl)
        simp [entriesAt, SyncOp.execute, hl, newest, hlr]
      · rw [if_neg hrl] at hplan
        by_cases hlr : l < r
        · rw [if_pos hlr] at hplan
          obtain rfl := Option.some.inj hplan
          simp [entriesAt, SyncOp.execute, hr, newest, hlr]
        · rw [if_neg hlr] at hplan
          exact absurd hplan (by simp)

theorem local_execute : Local SyncOp.filePath SyncOp.execute entriesAt := by
  intro maps op path hne
  have hcmp : ¬ compare op.filePath path = .eq := fun h =>
    hne (Std.LawfulEqCmp.compare_eq_iff_eq.mp h).symm
  rcases op with ⟨_ | _ | _, filePath, version⟩ <;>
    simp only [entriesAt, SyncOp.execute, Std.ExtTreeMap.getElem?_insert, if_neg hcmp]

/-! ### The loop -/

/-- The copy of the remote map once the paths of some entries are erased. -/
def eraseEntries (remote : StrMap Int32) (entries : List (Bytes × Int32)) : StrMap Int32 :=
  entries.foldl (fun remote entry => remote.erase entry.1) remote

theorem getElem?_eraseEntries (remote : StrMap Int32) (entries : List (Bytes × Int32))
    (path : Bytes) : (eraseEntries remote entries)[path]?
      = if path ∈ entries.map Prod.fst then none else remote[path]? := by
  induction entries generalizing remote with
  | nil => simp [eraseEntries]
  | cons entry entries ih =>
    have hcons : eraseEntries remote (entry :: entries)
        = eraseEntries (remote.erase entry.1) entries := rfl
    rw [hcons, ih, Std.ExtTreeMap.getElem?_erase]
    simp only [List.map_cons, List.mem_cons, Std.LawfulEqCmp.compare_eq_iff_eq]
    by_cases hlater : path ∈ entries.map Prod.fst
    · simp [hlater]
    · by_cases hhere : path = entry.1
      · simp [hhere]
      · simp [hlater, hhere, Ne.symm hhere]

/-- What is planned for an entry of the local map. -/
def planLocal (remote : StrMap Int32) (entry : Bytes × Int32) : Option SyncOp :=
  planAt entry.1 (some entry.2) remote[entry.1]?

theorem planEntry_eq (ops : List SyncOp) (remote : StrMap Int32) (entry : Bytes × Int32) :
    planEntry (ops, remote) entry
      = (ops ++ (planLocal remote entry).toList, remote.erase entry.1) := by
  rw [planLocal]
  cases hentry : remote[entry.1]? with
  | none =>
    simp only [planEntry, hentry, planAt, Option.toList_some]
    congr 1
    -- there is nothing to erase
    refine Std.ExtTreeMap.ext_getElem? fun path => ?_
    rw [Std.ExtTreeMap.getElem?_erase]
    split
    · rename_i heq
      rw [← Std.LawfulEqCmp.compare_eq_iff_eq.mp heq, hentry]
    · rfl
  | some r =>
    simp only [planEntry, hentry, planAt]
    split
    · rfl
    · split
      · rfl
      · rw [Option.toList_none, List.append_nil]

/-- The loop plans each local path from its entry in the remote map as it was, because
an entry is erased by its own path only. -/
theorem foldl_planEntry (entries : List (Bytes × Int32)) (hnodup : (entries.map Prod.fst).Nodup)
    (ops : List SyncOp) (remote : StrMap Int32) :
    entries.foldl planEntry (ops, remote)
      = (ops ++ entries.filterMap (planLocal remote),
          eraseEntries remote entries) := by
  induction entries generalizing ops remote with
  | nil => simp [eraseEntries]
  | cons entry entries ih =>
    rw [List.map_cons, List.nodup_cons] at hnodup
    obtain ⟨hnew, hnodup⟩ := hnodup
    have hsame : ∀ e ∈ entries, (remote.erase entry.1)[e.1]? = remote[e.1]? := by
      intro e he
      rw [Std.ExtTreeMap.getElem?_erase, if_neg]
      intro hcmp
      rw [Std.LawfulEqCmp.compare_eq_iff_eq.mp hcmp] at hnew
      exact hnew (List.mem_map_of_mem he)
    have hrest : entries.filterMap (planLocal (remote.erase entry.1))
        = entries.filterMap (planLocal remote) :=
      List.filterMap_congr fun e he => by rw [planLocal, planLocal, hsame e he]
    rw [List.foldl_cons, planEntry_eq, ih hnodup, hrest, List.append_assoc]
    cases hplan : planLocal remote entry with
    | none => rw [List.filterMap_cons_none hplan]; rfl
    | some op => rw [List.filterMap_cons_some hplan]; rfl

section

variable (localMap remoteMap : StrMap Int32)

theorem nodup_paths (m : StrMap Int32) : (m.toList.map Prod.fst).Nodup := by
  rw [Std.ExtTreeMap.map_fst_toList_eq_keys]
  exact Std.ExtTreeMap.nodup_keys

/-- **The plan as two lists**: the local paths, then the remote paths that are not local. -/
theorem planSync_eq :
    planSync localMap remoteMap
      = localMap.toList.filterMap (planLocal remoteMap)
        ++ (eraseEntries remoteMap localMap.toList).toList.map
            fun r => ⟨.download, r.1, r.2⟩ := by
  rw [planSync, foldl_planEntry _ (nodup_paths localMap), List.nil_append]

theorem getElem?_remaining (path : Bytes) :
    (eraseEntries remoteMap localMap.toList)[path]?
      = if path ∈ localMap then none else remoteMap[path]? := by
  rw [getElem?_eraseEntries, Std.ExtTreeMap.map_fst_toList_eq_keys]
  simp only [Std.ExtTreeMap.mem_keys]

/-- **What is planned for a path** depends on its own two entries only. -/
theorem mem_planSync (op : SyncOp) :
    op ∈ planSync localMap remoteMap
      ↔ planAt op.filePath localMap[op.filePath]? remoteMap[op.filePath]? = some op := by
  rw [planSync_eq, List.mem_append, List.mem_filterMap, List.mem_map]
  constructor
  · rintro (⟨e, he, hplan⟩ | ⟨r, hr, rfl⟩)
    · -- a local path
      rw [filePath_of_planAt hplan, Std.ExtTreeMap.mem_toList_iff_getElem?_eq_some.mp he]
      exact hplan
    · -- a path that is remote only
      have hentry := Std.ExtTreeMap.mem_toList_iff_getElem?_eq_some.mp hr
      rw [getElem?_remaining] at hentry
      by_cases hlocal : r.1 ∈ localMap
      · rw [if_pos hlocal] at hentry
        simp at hentry
      · rw [if_neg hlocal] at hentry
        show planAt r.1 localMap[r.1]? remoteMap[r.1]? = _
        rw [Std.ExtTreeMap.getElem?_eq_none hlocal, hentry]
        rfl
  · intro hplan
    cases hlocal : localMap[op.filePath]? with
    | some l =>
      refine Or.inl ⟨(op.filePath, l), ?_, ?_⟩
      · exact Std.ExtTreeMap.mem_toList_iff_getElem?_eq_some.mpr hlocal
      · rw [← hplan, hlocal, planLocal]
    | none =>
      rw [hlocal] at hplan
      cases hremote : remoteMap[op.filePath]? with
      | none =>
        rw [hremote] at hplan
        simp [planAt] at hplan
      | some r =>
        rw [hremote] at hplan
        refine Or.inr ⟨(op.filePath, r), ?_, Option.some.inj hplan⟩
        have hnot : op.filePath ∉ localMap := by
          rw [Std.ExtTreeMap.mem_iff_isSome_getElem?, hlocal]
          simp
        rw [Std.ExtTreeMap.mem_toList_iff_getElem?_eq_some, getElem?_remaining, if_neg hnot]
        exact hremote

theorem nodup_planSync : ((planSync localMap remoteMap).map SyncOp.filePath).Nodup := by
  have hfirst : ((localMap.toList.filterMap (planLocal remoteMap)).map SyncOp.filePath).Sublist
      (localMap.toList.map Prod.fst) := by
    induction localMap.toList with
    | nil => simp
    | cons e entries ih =>
      cases hplan : planLocal remoteMap e with
      | none =>
        rw [List.filterMap_cons_none hplan]
        exact ih.cons _
      | some op =>
        rw [List.filterMap_cons_some hplan, List.map_cons, List.map_cons, filePath_of_planAt hplan]
        exact ih.cons_cons _
  rw [planSync_eq, List.map_append, List.map_map, List.nodup_append]
  refine ⟨(nodup_paths localMap).sublist hfirst, ?_, fun path hpath path' hpath' => ?_⟩
  · exact nodup_paths _
  · -- a path of the second list is not local
    rintro rfl
    have hlocal : path ∈ localMap := by
      have hmem := hfirst.subset hpath
      rwa [Std.ExtTreeMap.map_fst_toList_eq_keys, Std.ExtTreeMap.mem_keys] at hmem
    obtain ⟨r, hr, rfl⟩ := List.mem_map.mp hpath'
    have hentry := Std.ExtTreeMap.mem_toList_iff_getElem?_eq_some.mp hr
    rw [getElem?_remaining] at hentry
    exact absurd ((if_pos hlocal).symm.trans hentry) (by simp)

theorem planSync_eq_nil_iff : planSync localMap remoteMap = [] ↔ localMap = remoteMap := by
  rw [List.eq_nil_iff_forall_not_mem]
  constructor
  · intro hnone
    refine Std.ExtTreeMap.ext_getElem? fun path => ?_
    rw [← planAt_eq_none_iff path]
    cases hplan : planAt path localMap[path]? remoteMap[path]? with
    | none => rfl
    | some op =>
      obtain rfl := filePath_of_planAt hplan
      exact absurd ((mem_planSync localMap remoteMap op).mpr hplan) (hnone op)
  · rintro rfl op hop
    have hplan := (mem_planSync localMap localMap op).mp hop
    rw [(planAt_eq_none_iff _ _ _).mpr rfl] at hplan
    simp at hplan

/-- A plan that is carried out leaves the newer entry of every path on both sides. -/
theorem entriesAt_executePlan (path : Bytes) :
    entriesAt path (executePlan (planSync localMap remoteMap) (localMap, remoteMap))
      = (newest localMap[path]? remoteMap[path]?, newest localMap[path]? remoteMap[path]?) := by
  cases hplan : planAt path localMap[path]? remoteMap[path]? with
  | none =>
    -- no operation of the plan touches the path, and its entries are equal
    have hkeep : entriesAt path (executePlan (planSync localMap remoteMap) (localMap, remoteMap))
        = entriesAt path (localMap, remoteMap) := by
      refine view_foldl_of_ne local_execute (fun op hop => ?_) _
      rintro rfl
      rw [(mem_planSync localMap remoteMap op).mp hop] at hplan
      simp at hplan
    rw [hkeep, entriesAt, (planAt_eq_none_iff path _ _).mp hplan, newest_self]
  | some op =>
    obtain rfl := filePath_of_planAt hplan
    have hmem := (mem_planSync localMap remoteMap op).mpr hplan
    obtain ⟨maps, hmaps, hleaves⟩ := view_foldl_of_mem local_execute
      (List.pairwise_map.mp (nodup_planSync localMap remoteMap)) hmem (localMap, remoteMap)
    exact hleaves.trans (entriesAt_execute hplan hmaps)

/-- **The plan of a synchronisation.**  It names no path twice; there is nothing to plan
exactly when the maps are equal; and carrying it out makes both maps the newer version of
every path of either, after which there is nothing to plan. -/
theorem planSync_correct :
    ((planSync localMap remoteMap).map SyncOp.filePath).Nodup ∧
      (planSync localMap remoteMap = [] ↔ localMap = remoteMap) ∧
      let maps := executePlan (planSync localMap remoteMap) (localMap, remoteMap)
      maps.1 = maps.2 ∧ (∀ path : Bytes, maps.1[path]? = newest localMap[path]? remoteMap[path]?) ∧
        planSync maps.1 maps.2 = [] := by
  refine ⟨nodup_planSync localMap remoteMap, planSync_eq_nil_iff localMap remoteMap, ?_⟩
  intro maps
  have hboth : ∀ path : Bytes, maps.1[path]? = newest localMap[path]? remoteMap[path]? ∧
      maps.2[path]? = newest localMap[path]? remoteMap[path]? := fun path =>
    Prod.mk.inj (entriesAt_executePlan localMap remoteMap path)
  have heq : maps.1 = maps.2 := by
    refine Std.ExtTreeMap.ext_getElem? fun path => ?_
    rw [(hboth path).1, (hboth path).2]
  exact ⟨heq, fun path => (hboth path).1, (planSync_eq_nil_iff _ _).mpr heq⟩

end

/-- `a` is newer here, `b` is newer there, `c` is only here and `d` only there. -/
example :
    planSync ((∅ : StrMap Int32).insert [97] 2 |>.insert [98] 1 |>.insert [99] 0)
        ((∅ : StrMap Int32).insert [97] 1 |>.insert [98] 5 |>.insert [100] 7)
      = [⟨.upload, [97], 2⟩, ⟨.download, [98], 5⟩, ⟨.createRemote, [99], 0⟩,
         ⟨.download, [100], 7⟩] := by
  decide

end Squid
