/-
The holder sets that a standby replicates.

The standby is given the holders of every file in a snapshot, and afterwards
only the deltas of committed writes.  A delta carries a whole set: the datanodes
that ACKed a CREATE, or the recorded holders at an UPDATE.  Registrations,
evictions and rebalances change the primary's sets and send nothing, and neither does
a DELETE on which the primary's `fs::remove` throws.

* `snapshot_holders` — when the snapshot gives the standby the primary's sets;
* `KeepsHolders` — the condition on an event: it does not change a set behind the
  standby's back;
* `holders_follow` — in every run of such events the standby has the primary's
  holder sets;
* `evicted_holder_stays` — a holder that is evicted on the primary only.
-/
import SquidStorage.StandbyReplication

open BigEndian TextStream LastWrite

namespace Squid

/-! ### Sets by their members -/

theorem mem_buildPersistableRepMap (rm : ReplicationManager) (p n : Bytes) :
    n ∈ rm.buildPersistableRepMap[p]?.getD ∅ ↔ n ∈ rm.holders p := by
  rw [ReplicationManager.buildPersistableRepMap, Std.ExtTreeMap.getElem?_map,
    ReplicationManager.holders]
  cases rm.dataNodeReplicationMap[p]? with
  | none => simp
  | some holders =>
    simp only [Option.map_some, Option.getD_some]
    rw [Std.ExtTreeSet.mem_ofList, List.contains_iff_mem, Std.ExtTreeMap.mem_keys]

/-- After a delta, the path of its commit has the holders that it carries. -/
theorem Commit.mem_applyHolders (c : Commit) (repMap : StrMap StrSet) (p n : Bytes) :
    n ∈ (c.applyHolders repMap)[p]?.getD ∅
      ↔ if c.filePath = p then n ∈ c.holders else n ∈ repMap[p]?.getD ∅ := by
  cases c with
  | put filePath version holders =>
    rw [applyHolders, Std.ExtTreeMap.getElem?_insert, Commit.filePath, Commit.holders]
    by_cases hp : filePath = p
    · rw [if_pos hp, if_pos (Std.LawfulEqCmp.compare_eq_iff_eq.mpr hp), Option.getD_some,
        Std.ExtTreeSet.mem_ofList, List.contains_iff_mem]
    · rw [if_neg hp, if_neg fun h => hp (Std.LawfulEqCmp.compare_eq_iff_eq.mp h)]
  | del filePath =>
    rw [applyHolders, Std.ExtTreeMap.getElem?_erase, Commit.filePath, Commit.holders]
    by_cases hp : filePath = p
    · rw [if_pos hp, if_pos (Std.LawfulEqCmp.compare_eq_iff_eq.mpr hp)]
      simp
    · rw [if_neg hp, if_neg fun h => hp (Std.LawfulEqCmp.compare_eq_iff_eq.mp h)]

namespace StandbyLink

/-- The standby's `repMap_` gives every path the names of the primary's
`buildPersistableRepMap()`, a missing path being the empty set. -/
def HoldersFollow (l : StandbyLink) : Prop :=
  ∀ p : Bytes, l.standby.repMap[p]?.getD ∅ = l.sys.rm.buildPersistableRepMap[p]?.getD ∅

theorem holdersFollow_iff (l : StandbyLink) :
    l.HoldersFollow ↔ ∀ p n : Bytes, n ∈ l.standby.repMap[p]?.getD ∅ ↔ n ∈ l.sys.rm.holders p := by
  refine forall_congr' fun p => ?_
  constructor
  · intro h n
    rw [h, mem_buildPersistableRepMap]
  · intro h
    refine Std.ExtTreeSet.ext_mem fun n => ?_
    rw [h n, mem_buildPersistableRepMap]

/-! ### The snapshot -/

/-- `registerStandby`: the version map with the replies of the live datanodes and
the holder map go out in one `STATE_SNAP` frame. -/
def join (sys : System) (epoch nextSeq : UInt32) (replies : List (StrMap Int32)) (w : Watcher) :
    Option StandbyLink :=
  sendFrame { sys := sys, epoch := epoch, nextSeq := nextSeq, standby := w }
    (stateSnapFormat (sys.rm.getFileVersionMap replies) sys.rm.buildPersistableRepMap epoch)

end StandbyLink

/-- What the text of a snapshot can carry: every file with holders is in the
version map, paths are words, and names are words without a comma. -/
structure Snapshotable (versionMap : StrMap Int32) (repMap : StrMap StrSet) : Prop where
  listed : ∀ (p : Bytes) (s : StrSet), repMap[p]? = some s → s ≠ ∅ → p ∈ versionMap
  paths : ∀ p ∈ versionMap, IsWord p
  names : ∀ (p : Bytes) (s : StrSet), repMap[p]? = some s → ∀ n ∈ s, IsPlainName n

theorem snapshotable_iff (versionMap : StrMap Int32) (repMap : StrMap StrSet) :
    Snapshotable versionMap repMap ↔
      (∀ e ∈ repMap.toList, e.2.isEmpty = false → e.1 ∈ versionMap) ∧
      (∀ p ∈ versionMap.keys, IsWord p) ∧
      ∀ e ∈ repMap.toList, ∀ n ∈ e.2.toList, IsPlainName n := by
  have hempty : ∀ s : StrSet, s.isEmpty = false ↔ s ≠ ∅ := fun s => by
    rw [Ne, ← Std.ExtTreeSet.isEmpty_iff, Bool.not_eq_true]
  constructor
  · rintro ⟨hlisted, hpaths, hnames⟩
    refine ⟨fun e he hs => ?_, fun p hp => ?_, fun e he n hn => ?_⟩
    · exact hlisted e.1 e.2 (Std.ExtTreeMap.mem_toList_iff_getElem?_eq_some.mp he)
        ((hempty e.2).mp hs)
    · exact hpaths p (Std.ExtTreeMap.mem_keys.mp hp)
    · exact hnames e.1 e.2 (Std.ExtTreeMap.mem_toList_iff_getElem?_eq_some.mp he) n
        (Std.ExtTreeSet.mem_toList.mp hn)
  · rintro ⟨hlisted, hpaths, hnames⟩
    refine ⟨fun p s hs hne => ?_, fun p hp => ?_, fun p s hs n hn => ?_⟩
    · exact hlisted (p, s) (Std.ExtTreeMap.mem_toList_iff_getElem?_eq_some.mpr hs)
        ((hempty s).mpr hne)
    · exact hpaths p (Std.ExtTreeMap.mem_keys.mpr hp)
    · exact hnames (p, s) (Std.ExtTreeMap.mem_toList_iff_getElem?_eq_some.mpr hs) n
        (Std.ExtTreeSet.mem_toList.mpr hn)

instance (versionMap : StrMap Int32) (repMap : StrMap StrSet) :
    Decidable (Snapshotable versionMap repMap) :=
  decidable_of_iff _ (snapshotable_iff versionMap repMap).symm

/-- The holder sets that the standby reads of a snapshot. -/
def snapRepMap (versionMap : StrMap Int32) (repMap : StrMap StrSet) : StrMap StrSet :=
  (versionMap.toList.filterMap fun e => parseSnapEntry (snapEntry e.1 e.2 repMap[e.1]?)).foldl
    (fun (m : StrMap StrSet) e => m.insert e.1 e.2.2) ∅

theorem handleFrame_snap {w : Watcher} {epoch : UInt32} (h : w.observedEpoch ≤ epoch)
    (versionMap : StrMap Int32) (repMap : StrMap StrSet) (seq : UInt32) :
    let msg : Message := { opcode := .stateSnap, seq := seq,
                           fields := stateSnapFields versionMap repMap epoch }
    (w.handleFrame msg).repMap = snapRepMap versionMap repMap ∧
      (w.handleFrame msg).observedEpoch = epoch := by
  intro msg
  have hepoch : msg.epoch = epoch := (frameWrite_snap versionMap repMap epoch seq).1
  have hfresh : ¬ msg.epoch < w.observedEpoch := by
    rw [hepoch]
    grind
  have happly : w.handleFrame msg = w.applySnap msg := by
    rw [Watcher.handleFrame, if_neg hfresh]
    rfl
  have hentries : Watcher.snapEntries msg
      = versionMap.toList.filterMap fun e => parseSnapEntry (snapEntry e.1 e.2 repMap[e.1]?) :=
    snapEntries_snap versionMap repMap epoch seq
  rw [happly]
  refine ⟨?_, (Watcher.observedEpoch_applySnap (by rw [hepoch]; exact h)).trans hepoch⟩
  rw [Watcher.applySnap, hentries, Watcher.raise]
  split <;> rfl

theorem mem_map_fst_toList (versionMap : StrMap Int32) (p : Bytes) :
    p ∈ versionMap.toList.map (fun e : Bytes × Int32 => e.1) ↔ p ∈ versionMap := by
  rw [← Std.ExtTreeMap.mem_keys, ← Std.ExtTreeMap.map_fst_toList_eq_keys]

/-- Every entry of a snapshot of plain words is read back whole. -/
theorem filterMap_parseSnapEntry_plain {versionMap : StrMap Int32} {repMap : StrMap StrSet}
    (hpaths : ∀ p ∈ versionMap, IsWord p)
    (hnames : ∀ (p : Bytes) (s : StrSet), repMap[p]? = some s → ∀ n ∈ s, IsPlainName n) :
    versionMap.toList.filterMap (fun e => parseSnapEntry (snapEntry e.1 e.2 repMap[e.1]?))
      = versionMap.toList.map fun e => (e.1, e.2, repMap[e.1]?.getD ∅) := by
  rw [← List.filterMap_eq_map]
  refine List.filterMap_congr fun e he => ?_
  have hmem : e.1 ∈ versionMap :=
    (mem_map_fst_toList versionMap e.1).mp (List.mem_map_of_mem (f := Prod.fst) he)
  exact parseSnapEntry_plain (hpaths e.1 hmem) e.2 fun s hs => hnames e.1 s hs

/-- The holder map that the standby fills from such a snapshot. -/
theorem look_foldl_plain (versionMap : StrMap Int32) (repMap : StrMap StrSet) (p : Bytes) :
    look ((versionMap.toList.map fun e => (e.1, e.2, repMap[e.1]?.getD ∅)).foldl
        (fun (m : StrMap StrSet) e => m.insert e.1 e.2.2) ∅) p
      = if p ∈ versionMap then some (repMap[p]?.getD ∅) else none := by
  have hfold := look_foldl_insert_of_key (fun e : Bytes × Int32 => e.1)
    (fun q => repMap[q]?.getD ∅) versionMap.toList (∅ : StrMap StrSet) p
  rw [List.foldl_map, hfold, look_empty]
  by_cases hp : p ∈ versionMap
  · rw [if_pos ((mem_map_fst_toList versionMap p).mpr hp), if_pos hp]
  · rw [if_neg (mt (mem_map_fst_toList versionMap p).mp hp), if_neg hp]

/-- **A snapshot of plain words gives the holder sets.** -/
theorem snapshot_holders {versionMap : StrMap Int32} {repMap : StrMap StrSet}
    (h : Snapshotable versionMap repMap) (p : Bytes) :
    (snapRepMap versionMap repMap)[p]?.getD ∅ = repMap[p]?.getD ∅ := by
  rw [snapRepMap, filterMap_parseSnapEntry_plain h.paths h.names]
  show (look _ p).getD ∅ = _
  rw [look_foldl_plain]
  split
  · rfl
  · rename_i hout
    -- a file that is not in the version map has no holders
    cases hrep : repMap[p]? with
    | none => rfl
    | some s =>
      have hempty : s = ∅ := by
        by_contra hne
        exact hout (h.listed p s hrep hne)
      rw [hempty]
      rfl

namespace StandbyLink

/-- A standby that has been given its snapshot. -/
theorem follow_of_join {sys : System} {epoch nextSeq : UInt32} {replies : List (StrMap Int32)}
    {w : Watcher} {l : StandbyLink} (hjoin : join sys epoch nextSeq replies w = some l)
    (hepoch : w.observedEpoch ≤ epoch)
    (hsnap : Snapshotable (sys.rm.getFileVersionMap replies) sys.rm.buildPersistableRepMap) :
    l.HoldersFollow ∧ l.standby.observedEpoch ≤ l.epoch := by
  rw [join, stateSnapFormat] at hjoin
  cases hframe : buildFrame .stateSnap 0
      (stateSnapFields (sys.rm.getFileVersionMap replies) sys.rm.buildPersistableRepMap epoch) with
  | error e => simp [sendFrame, hframe] at hjoin
  | ok frame =>
    obtain ⟨hrep, hobserved⟩ := handleFrame_snap hepoch (sys.rm.getFileVersionMap replies)
      sys.rm.buildPersistableRepMap nextSeq
    simp only [sendFrame, hframe, parseMessage_stampSeq hframe, Option.some.injEq] at hjoin
    subst hjoin
    refine ⟨fun p => ?_, ?_⟩
    · simp only [hrep]
      exact snapshot_holders hsnap p
    · simp only [hobserved]
      exact UInt32.le_refl epoch

/-! ### Events -/

/-- The condition on an event.  A committed CREATE of a path that has holders
already must be ACKed by all of them, a datanode that registers must already be
a holder of what it reports, and a datanode that is evicted must hold nothing; neither
does a file whose DELETE is carried out and throws. -/
def KeepsHolders (l : StandbyLink) (e : PrimaryEvent) : Prop :=
  match e.event with
  | .create filePath version _ fileData answer _ =>
    l.sys.createCommits filePath version fileData answer →
      ∀ n ∈ l.sys.rm.holders filePath, ∃ session,
        l.sys.rm.dataNodeEndpointMap[n]? = some session ∧ answer n session = .acked
  | .register name _ fileVersionMap _ => ∀ p ∈ fileVersionMap, name ∈ l.sys.rm.holders p
  | .evict name _ => ∀ p, name ∉ l.sys.rm.holders p
  | .delete filePath _ answer =>
    e.removeError ≠ none → l.sys.deleteCommits filePath answer → ∀ n, n ∉ l.sys.rm.holders filePath
  | .update .. | .read .. | .loseEndpoint .. => True

/-- The standby has the primary's sets and takes its frames. -/
def Following (l : StandbyLink) : Prop :=
  l.HoldersFollow ∧ l.standby.observedEpoch ≤ l.epoch

/-- An event after which the primary has the same sets, and of which the standby does not hear. -/
theorem following_same {l : StandbyLink} (h : l.Following) {sys : System}
    (hsame : ∀ p n, n ∈ sys.rm.holders p ↔ n ∈ l.sys.rm.holders p) :
    Following { l with sys := sys } := by
  refine ⟨(holdersFollow_iff _).mpr fun p n => ?_, h.2⟩
  rw [hsame]
  exact (holdersFollow_iff l).mp h.1 p n

/-- An event that sends nothing and changes no set. -/
theorem following_quiet {l t : StandbyLink} (h : l.Following) {event : ServerEvent}
    (hcommit : l.sys.commit? event = none)
    (hsame : ∀ p n, n ∈ (l.sys.step event).rm.holders p ↔ n ∈ l.sys.rm.holders p)
    (hstep : l.plainStep event = some t) : t.Following := by
  rw [plainStep, hcommit] at hstep
  obtain rfl := Option.some.inj hstep
  exact following_same h hsame

/-- A commit whose delta carries the holders that the path has afterwards. -/
theorem following_commit {l t : StandbyLink} (h : l.Following) {event : ServerEvent} {c : Commit}
    (hcommit : l.sys.commit? event = some c)
    (hpath : ∀ n, n ∈ (l.sys.step event).rm.holders c.filePath ↔ n ∈ c.holders)
    (hother : ∀ p, c.filePath ≠ p → ∀ n,
      n ∈ (l.sys.step event).rm.holders p ↔ n ∈ l.sys.rm.holders p)
    (hstep : l.plainStep event = some t) : t.Following := by
  rw [plainStep, hcommit] at hstep
  simp only at hstep
  have hfits := fits_of_sendFrame (l := { l with sys := l.sys.step event }) hstep
  rw [sendFrame_delta (l := { l with sys := l.sys.step event }) hfits h.2] at hstep
  obtain rfl := Option.some.inj hstep
  refine ⟨(holdersFollow_iff _).mpr fun p n => ?_, UInt32.le_refl _⟩
  simp only [Commit.mem_applyHolders]
  split
  · rename_i hp
    subst hp
    exact (hpath n).symm
  · rename_i hp
    rw [hother p hp n]
    exact (holdersFollow_iff l).mp h.1 p n

theorem following_create {l t : StandbyLink} (h : l.Following) {filePath : Bytes}
    {version : Int32} {origin fileData : Bytes} {answer : Bytes → SessionId → WriteAnswer}
    {rollback : Bytes → SessionId → DeleteAnswer}
    (hkeeps : l.sys.createCommits filePath version fileData answer →
      ∀ n ∈ l.sys.rm.holders filePath, ∃ session,
        l.sys.rm.dataNodeEndpointMap[n]? = some session ∧ answer n session = .acked)
    (hstep : l.plainStep (.create filePath version origin fileData answer rollback) = some t) :
    t.Following := by
  by_cases hcommit : l.sys.createCommits filePath version fileData answer
  · have hsys := (System.create_of_commits l.sys answer rollback filePath version origin fileData
      hcommit).2
    set acked := (fanOut answer filePath ⟨fileData, version⟩ l.sys.rm.dataNodeEndpointMap.toList
      l.sys.nodes).2 with hacked
    have hholders : ∀ p n, n ∈ (l.sys.step (.create filePath version origin fileData answer
        rollback)).rm.holders p ↔ (p = filePath ∧ n ∈ acked.map Prod.fst) ∨ n ∈ l.sys.rm.holders p := by
      intro p n
      rw [System.step, hsys]
      exact ReplicationManager.mem_holders_commitCreate l.sys.rm
    have hc : l.sys.commit? (.create filePath version origin fileData answer rollback)
        = some (.put filePath version (acked.map Prod.fst)) := by
      rw [System.commit?, if_pos hcommit]
    refine following_commit h hc (fun n => ?_) (fun p hp n => ?_) hstep
    · rw [hholders]
      refine ⟨fun hn => ?_, fun hn => Or.inl ⟨rfl, hn⟩⟩
      rcases hn with ⟨-, hn⟩ | hold
      · exact hn
      · -- the old holders are among those that ACKed
        obtain ⟨session, hend, hack⟩ := hkeeps hcommit n hold
        refine List.mem_map.mpr ⟨(n, session), ?_, rfl⟩
        rw [hacked, fanOut_ackedNodes, List.mem_filter]
        exact ⟨Std.ExtTreeMap.mem_toList_iff_getElem?_eq_some.mpr hend, by rw [hack]; rfl⟩
    · rw [hholders]
      exact ⟨fun hn => hn.resolve_left fun hq => hp hq.1.symm, Or.inr⟩
  · have hsys := (System.create_of_rejected l.sys answer rollback filePath version origin fileData
      hcommit).2
    refine following_quiet h (by rw [System.commit?, if_neg hcommit]) (fun p n => ?_) hstep
    rw [System.step, hsys]

theorem following_update {l t : StandbyLink} (h : l.Following) {filePath : Bytes}
    {seen : Int32} {origin fileData : Bytes} {answer : Bytes → SessionId → WriteAnswer}
    (hstep : l.plainStep (.update filePath seen origin fileData answer) = some t) :
    t.Following := by
  by_cases hcommit : l.sys.updateCommits filePath seen fileData answer
  · have hsys := (System.update_of_commits l.sys answer filePath seen origin fileData hcommit).2
    have hsame : ∀ p n, n ∈ (l.sys.step (.update filePath seen origin fileData answer)).rm.holders p
        ↔ n ∈ l.sys.rm.holders p := by
      intro p n
      rw [System.step, hsys]
      rfl
    have hc : l.sys.commit? (.update filePath seen origin fileData answer)
        = some (.put filePath (l.sys.newVersion filePath seen)
          ((l.sys.rm.holders filePath).toList.map Prod.fst)) := by
      rw [System.commit?, if_pos hcommit]
    refine following_commit h hc (fun n => ?_) (fun p _ n => hsame p n) hstep
    rw [hsame, Commit.holders, Std.ExtTreeMap.map_fst_toList_eq_keys, Std.ExtTreeMap.mem_keys]
    rfl
  · have hsys := (System.update_of_rejected l.sys answer filePath seen origin fileData hcommit).2
    refine following_quiet h (by rw [System.commit?, if_neg hcommit]) (fun p n => ?_) hstep
    rw [System.step, hsys]

theorem following_delete {l t : StandbyLink} (h : l.Following) {filePath origin : Bytes}
    {answer : Bytes → SessionId → DeleteAnswer}
    (hstep : l.plainStep (.delete filePath origin answer) = some t) : t.Following := by
  by_cases hcommit : l.sys.deleteCommits filePath answer
  · have hholders : ∀ p, (l.sys.step (.delete filePath origin answer)).rm.holders p
        = if filePath = p then ∅ else l.sys.rm.holders p := by
      intro p
      rw [System.step, System.delete_of_commits hcommit]
      exact ReplicationManager.holders_commitDelete l.sys.rm filePath p
    have hc : l.sys.commit? (.delete filePath origin answer) = some (.del filePath) := by
      rw [System.commit?, if_pos hcommit]
    refine following_commit h hc (fun n => ?_) (fun p hp n => ?_) hstep
    · rw [hholders, Commit.filePath, if_pos rfl]
      simp [Commit.holders]
    · rw [Commit.filePath] at hp
      rw [hholders, if_neg hp]
  · refine following_quiet h (by rw [System.commit?, if_neg hcommit]) (fun p n => ?_) hstep
    rw [System.step, System.delete_of_rejected hcommit]

/-- A delete that throws takes the file's holders from the primary only. -/
theorem following_throws {l : StandbyLink} (h : l.Following) {e : PrimaryEvent} {filePath : Bytes}
    (hthrows : l.sys.Throws e filePath) (hkeeps : l.KeepsHolders e)
    (hrm : (l.sys.stepOn e).rm = l.sys.rm.eraseFile filePath) :
    Following { l with sys := l.sys.stepOn e } := by
  obtain ⟨hthrown, origin, answer, hevent, hcommit⟩ := hthrows
  simp only [KeepsHolders, hevent] at hkeeps
  refine following_same h fun p n => ?_
  have hholders : (l.sys.stepOn e).rm.holders p
      = if filePath = p then ∅ else l.sys.rm.holders p := by
    rw [hrm]
    exact ReplicationManager.holders_commitDelete l.sys.rm filePath p
  rw [hholders]
  split
  · rename_i hp
    subst hp
    exact iff_of_false (by simp) (hkeeps hthrown hcommit n)
  · rfl

/-- **One event.** -/
theorem following_step (l : StandbyLink) (e : PrimaryEvent) (t : StandbyLink)
    (h : l.Following) (hkeeps : l.KeepsHolders e) (hstep : l.step e = some t) : t.Following := by
  obtain ⟨-, -, heq⟩ | ⟨filePath, hthrows, -, hrm, heq⟩ := l.step_eq e
  · have hplain := heq.symm.trans hstep
    obtain ⟨event, removeError⟩ := e
    cases event with
    | create => exact following_create h hkeeps hplain
    | update => exact following_update h hplain
    | delete => exact following_delete h hplain
    | read => exact following_quiet h rfl (fun p n => Iff.rfl) hplain
    | loseEndpoint name =>
      refine following_quiet h rfl (fun p n => ?_) hplain
      have hsame : (l.sys.step (.loseEndpoint name)).rm.holders p = l.sys.rm.holders p :=
        ReplicationManager.holders_eq rfl p
      rw [hsame]
    | register name session fileVersionMap replies =>
      refine following_quiet h rfl (fun p n => ?_) hplain
      refine (ReplicationManager.mem_holders_acceptDataNode l.sys.rm).trans ?_
      refine ⟨fun hn => ?_, Or.inr⟩
      rcases hn with ⟨hp, rfl⟩ | hold
      · exact hkeeps p hp
      · exact hold
    | evict name answer =>
      refine following_quiet h rfl (fun p n => ?_) hplain
      rw [System.step]
      exact System.holders_evict_of_not_mem l.sys answer hkeeps p n
  · rw [heq] at hstep
    obtain rfl := Option.some.inj hstep
    exact following_throws h hthrows hkeeps hrm

/-- **When the standby's holder sets follow the primary's.**  After a snapshot
that its text can carry, to a standby that has not observed a higher epoch, they
do in every state of every run whose events keep the holders. -/
theorem holders_follow {sys : System} {epoch nextSeq : UInt32} {replies : List (StrMap Int32)}
    {w : Watcher} {l t : StandbyLink} {events : List PrimaryEvent}
    (hjoin : join sys epoch nextSeq replies w = some l) (hepoch : w.observedEpoch ≤ epoch)
    (hsnap : Snapshotable (sys.rm.getFileVersionMap replies) sys.rm.buildPersistableRepMap)
    (hkeeps : Runs.Meets step KeepsHolders l events) (hrun : Runs.run step l events = some t) :
    ∀ p : Bytes, t.standby.repMap[p]?.getD ∅ = t.sys.rm.buildPersistableRepMap[p]?.getD ∅ :=
  (Runs.run_invariant following_step (follow_of_join hjoin hepoch hsnap) hkeeps hrun).1

/-- A primary with replication factor 3, the datanodes `a`, `b` and `c`, and the
file `f` on the first two. -/
def twoHolders : System :=
  System.after { rm := ReplicationManager.start 3 none, nodes := fun _ _ => none }
    [.register [97] 0 ∅ [], .register [98] 1 ∅ [], .register [99] 2 ∅ [],
     .create [102] 1 [100] [120] (fun n _ => if n = [99] then .refused else .acked)
       (fun _ _ => .acked)]

/-- The holders of `f` after a delete of another path that throws, an update, and a delete. -/
theorem holders_follow_update :
    let events : List PrimaryEvent :=
      [⟨.delete [103] [100] fun _ _ => .acked, some "File name too long"⟩,
       ⟨.update [102] 1 [100] [121] fun _ _ => .acked, none⟩,
       ⟨.delete [102] [100] fun _ _ => .acked, none⟩]
    ∃ l t, join twoHolders 1 0 [] (Watcher.start none) = some l ∧
      Runs.run step l events = some t ∧
      ∀ p : Bytes, t.standby.repMap[p]?.getD ∅ = t.sys.rm.buildPersistableRepMap[p]?.getD ∅ := by
  intro events
  have hruns : ((join twoHolders 1 0 [] (Watcher.start none)).bind fun l =>
      Runs.run step l events).isSome := by decide
  obtain ⟨t, ht⟩ := Option.isSome_iff_exists.mp hruns
  obtain ⟨l, hjoin, hrun⟩ := Option.bind_eq_some_iff.mp ht
  have hnone : l.sys.rm.holders [103] = ∅ := by
    have h : (join twoHolders 1 0 [] (Watcher.start none)).map (·.sys.rm.holders [103])
        = some ∅ := rfl
    rw [hjoin] at h
    exact Option.some.inj h
  have hkeeps : Runs.Meets step KeepsHolders l events := by
    refine ⟨fun _ _ n hn => ?_, fun _ _ => ⟨trivial, fun _ _ => ⟨fun h => absurd rfl h,
      fun _ _ => trivial⟩⟩⟩
    rw [hnone] at hn
    simp at hn
  exact ⟨l, t, hjoin, hrun, holders_follow hjoin (by decide) (by decide) hkeeps hrun⟩

/-- The holders of `f` on the standby and on the primary, after some events. -/
def holdersAfter (events : List PrimaryEvent) : Option (Option (List Bytes) × Option (List Bytes)) :=
  ((join twoHolders 1 0 [] (Watcher.start none)).bind fun l => Runs.run step l events).map fun t =>
    (t.standby.repMap[([102] : Bytes)]?.map (·.toList),
      t.sys.rm.buildPersistableRepMap[([102] : Bytes)]?.map (·.toList))

/-- The datanode `a` misses its heartbeat: it leaves the primary's holders of `f`,
`c` is given a copy, and the standby hears of neither.  And a CREATE of `f` that
`b` and `c` ACK: the primary keeps `a`, the delta does not name it. -/
theorem evicted_holder_stays :
    holdersAfter [⟨.loseEndpoint [97], none⟩,
          ⟨.evict [97] ⟨fun _ _ _ => .served, fun _ _ _ => .acked⟩, none⟩]
        = some (some [[97], [98]], some [[98], [99]]) ∧
      holdersAfter [⟨.create [102] 2 [100] [121] (fun n _ => if n = [97] then .refused else .acked)
          (fun _ _ => .acked), none⟩]
        = some (some [[98], [99]], some [[97], [98], [99]]) := by
  decide

end StandbyLink

end Squid
