/-
Reads across restarts and failovers of the server.

A server keeps nothing of the replication map over a restart, and of the versions only
`.squid/fileVersions.txt`; a promoted standby has the file of its own disk, which may be
empty.  The datanodes connect again and report their files, and from that the new server
finds out what the versions are.

* `Service.step` — requests, datanodes that come and go, restarts and failovers;
* `Settled` — the server knows the version of the last acknowledged write of a file;
* `Backed` — no copy, no version in memory and no version on disk is ahead of the last
  acknowledged write, and copies of its version hold its bytes;
* `settled_step` — only a failover unsettles a file;
* `reads_after_failover` — once a current copy has been reported to the new server, reads
  return the last acknowledged write again.
-/
import SquidStorage.WriteSurvival
import SquidStorage.VersionWriters

open BigEndian LastWrite RunningMax Runs TextStream

namespace Squid

/-- The server and its datanodes, and for each file the bytes and the version of the last
write that was acknowledged. -/
structure Service where
  sys : System
  acked : StrMap StoredFile

inductive ServiceEvent where
  | serve (event : ServerEvent)
  /-- the server stops and is started again on its disk -/
  | restart
  /-- a standby takes over, with the version file of its own disk -/
  | promote (replicationFactor : ℕ) (versionFile : Option Bytes)

def ServiceEvent.isPromotion : ServiceEvent → Bool
  | promote _ _ => true
  | serve _ | restart => false

namespace Service

/-- A server without files. -/
def start (replicationFactor : ℕ) : Service :=
  { sys := { rm := ReplicationManager.start replicationFactor none, nodes := fun _ _ => none }
    acked := ∅ }

/-- What a request writes, if it is carried out: the file afterwards. -/
def written (s : Service) : ServerEvent → Option (Bytes × Option StoredFile)
  | .create filePath version _ fileData answer _ =>
    if s.sys.createCommits filePath version fileData answer
    then some (filePath, some ⟨fileData, version⟩) else none
  | .update filePath seen _ fileData answer =>
    if s.sys.updateCommits filePath seen fileData answer
    then some (filePath, some ⟨fileData, s.sys.newVersion filePath seen⟩) else none
  | .delete filePath _ answer =>
    if s.sys.deleteCommits filePath answer then some (filePath, none) else none
  | .read .. | .register .. | .loseEndpoint .. | .evict .. => none

/-- What a table holds after a write or a deletion of one of its keys. -/
def record {α : Type} (table : StrMap α) : Option (Bytes × Option α) → StrMap α
  | none => table
  | some (p, none) => table.erase p
  | some (p, some a) => table.insert p a

def step (s : Service) : ServiceEvent → Option Service
  | .serve event => some { sys := s.sys.step event, acked := record s.acked (s.written event) }
  | .restart =>
    let rm := ReplicationManager.start s.sys.rm.replicationFactor s.sys.rm.versionFile
    some { s with sys := { s.sys with rm := rm } }
  | .promote replicationFactor versionFile =>
    let rm := ReplicationManager.start replicationFactor versionFile
    some { s with sys := { s.sys with rm := rm } }

/-- The server knows the version of the last acknowledged write of the file. -/
def Settled (p : Bytes) (s : Service) : Prop :=
  s.sys.rm.persistedVersionMap[p]? = s.acked[p]?.map StoredFile.version

instance (p : Bytes) (s : Service) : Decidable (Settled p s) :=
  inferInstanceAs (Decidable (_ = _))

/-- No version is negative or ahead of the last acknowledged write. -/
def Within (acked : StrMap StoredFile) (versions : StrMap Int32) : Prop :=
  ∀ (p : Bytes) v, versions[p]? = some v → 0 ≤ v ∧ ∃ last, acked[p]? = some last ∧ v ≤ last.version

/-- A path that both readers of the version file take for one. -/
def FileName (p : Bytes) : Prop := IsWord p ∧ p.head? ≠ some hash

instance (p : Bytes) : Decidable (FileName p) := inferInstanceAs (Decidable (_ ∧ _))

/-- The datanode reports copies that it has. -/
def Reports (sys : System) (name : Bytes) (fileVersionMap : StrMap Int32) : Prop :=
  ∀ (p : Bytes) v, fileVersionMap[p]? = some v → ∃ bytes, sys.nodes name p = some ⟨bytes, v⟩

/-- The condition on an event: what is not acknowledged leaves nothing behind, as in
`Tracked.LeavesNoTrace`, and datanodes report what they have. -/
def Orderly (s : Service) : ServiceEvent → Prop
  | .serve (.create filePath version _ fileData answer rollback) =>
    if s.sys.createCommits filePath version fileData answer then
      FileName filePath ∧ 0 ≤ version ∧
        ∀ last, s.acked[filePath]? = some last → last.version < version
    else
      (∃ last, s.acked[filePath]? = some last ∧ version < last.version) ∨
      ∀ n session, s.sys.rm.dataNodeEndpointMap[n]? = some session →
        (answer n session).stores = true →
          answer n session = .acked ∧ (rollback n session).deletes = true
  | .serve (.update filePath seen _ fileData answer) =>
    if s.sys.updateCommits filePath seen fileData answer then
      -- nobody writes a file whose version the server does not know
      FileName filePath ∧ 0 ≤ s.sys.newVersion filePath seen ∧ s.Settled filePath
    else
      ∀ n session, (s.sys.rm.holders filePath)[n]? = some session →
        (answer n session).stores = false
  | .serve (.delete filePath _ answer) =>
    ∀ n file, s.sys.nodes n filePath = some file → ∃ session,
      (s.sys.rm.holders filePath)[n]? = some session ∧ (answer n session).deletes = true
  | .serve (.register name _ fileVersionMap replies) =>
    Reports s.sys name fileVersionMap ∧ ∀ reply ∈ replies, ∃ n, Reports s.sys n reply
  | .serve (.evict name answer) =>
    ∀ target ∈ System.rebalanceTargets s.sys.rm name, Tracked.SourceCurrent answer s.sys target
  | .serve (.read ..) | .serve (.loseEndpoint ..) | .restart => True
  | .promote _ versionFile =>
    -- the other disk knows of nothing newer
    ∃ m, Holds (versionFile.getD []) m ∧ Within s.acked m

/-- The event tells the server the version of the file: a write of it that is carried out, or
a report of a copy at the version of the last one. -/
def Settles (p : Bytes) (s : Service) : ServiceEvent → Prop
  | .serve (.register _ _ fileVersionMap _) =>
    ∃ last, s.acked[p]? = some last ∧ fileVersionMap[p]? = some last.version ∧ 0 < last.version
  | .serve event => ∃ file, s.written event = some (p, file)
  | .restart | .promote _ _ => False

/-! ### What is kept -/

/-- The version file is between the versions in memory and those acknowledged. -/
def OnDisk (acked : StrMap StoredFile) (rm : ReplicationManager) : Prop :=
  ∃ m, Holds (rm.versionFile.getD []) m ∧ Within acked m ∧
    ∀ p : Bytes, VersionLE rm.persistedVersionMap[p]? m[p]?

structure Backed (s : Service) : Prop where
  copies : ∀ n p file, s.sys.nodes n p = some file → ∃ last, s.acked[p]? = some last ∧
    file.version ≤ last.version ∧ (file.version = last.version → file.bytes = last.bytes)
  named : ∀ (p : Bytes) last, s.acked[p]? = some last → FileName p
  known : Within s.acked s.sys.rm.persistedVersionMap
  disk : OnDisk s.acked s.sys.rm

variable {s t : Service} {p : Bytes}

/-! ### Versions and acknowledged writes -/

theorem getElem?_record_some {α : Type} (table : StrMap α) (q : Bytes) (a : Option α) (p : Bytes) :
    (record table (some (q, a)))[p]? = if q = p then a else table[p]? := by
  cases a with
  | none =>
    rw [record, Std.ExtTreeMap.getElem?_erase]
    simp
  | some a =>
    rw [record, Std.ExtTreeMap.getElem?_insert]
    simp

/-- What is written with a request, as a write of the version map. -/
def versionWritten (s : Service) (event : ServerEvent) : Option (Bytes × Option Int32) :=
  (s.written event).map fun w => (w.1, w.2.map StoredFile.version)

/-- The version map follows the acknowledged writes, reports of datanodes apart. -/
theorem persistedVersionMap_step (s : Service) {event : ServerEvent}
    (hreport : ∀ name session fileVersionMap replies,
      event ≠ .register name session fileVersionMap replies) :
    (s.sys.step event).rm.persistedVersionMap
      = record s.sys.rm.persistedVersionMap (s.versionWritten event) := by
  cases event with
  | create filePath version origin fileData answer rollback =>
    rw [System.step, System.persistedVersionMap_create, versionWritten, written]
    split <;> rfl
  | update filePath seen origin fileData answer =>
    rw [System.step, System.persistedVersionMap_update, versionWritten, written]
    split <;> rfl
  | delete filePath origin answer =>
    rw [System.step, versionWritten, written]
    split
    · rename_i hcommit
      rw [System.delete_of_commits hcommit]
      rfl
    · rename_i hreject
      rw [System.delete_of_rejected hreject]
      rfl
  | register name session fileVersionMap replies => exact absurd rfl (hreport _ _ _ _)
  | evict name answer => exact System.persistedVersionMap_eraseFromReplicationMap s.sys answer name
  | read | loseEndpoint => rfl

theorem Within.record {acked : StrMap StoredFile} {versions : StrMap Int32}
    (h : Within acked versions) {q : Bytes} {file : Option StoredFile}
    (hpos : ∀ f, file = some f → 0 ≤ f.version) :
    Within (record acked (some (q, file)))
      (Service.record versions (some (q, file.map StoredFile.version))) := by
  intro p v hv
  rw [getElem?_record_some] at hv ⊢
  by_cases hp : q = p
  · rw [if_pos hp] at hv ⊢
    obtain ⟨f, rfl, rfl⟩ := Option.map_eq_some_iff.mp hv
    exact ⟨hpos f rfl, f, rfl, Int32.le_refl _⟩
  · rw [if_neg hp] at hv ⊢
    exact h p v hv

/-- Versions of acknowledged files can be saved. -/
theorem Within.holds {acked : StrMap StoredFile} {versions : StrMap Int32}
    (h : Within acked versions)
    (hnamed : ∀ (p : Bytes) last, acked[p]? = some last → FileName p) :
    Holds (StateManager.saveVersionMap versions) versions := by
  refine holds_saveVersionMap fun e he => ?_
  obtain ⟨-, last, hlast, -⟩ := h e.1 e.2 (Std.ExtTreeMap.mem_toList_iff_getElem?_eq_some.mp he)
  exact hnamed e.1 last hlast

theorem Within.onDisk {acked : StrMap StoredFile} {rm : ReplicationManager}
    (h : Within acked rm.persistedVersionMap)
    (hnamed : ∀ (p : Bytes) last, acked[p]? = some last → FileName p) :
    OnDisk acked rm.persistState :=
  ⟨rm.persistedVersionMap, h.holds hnamed, h, fun _ => .refl _⟩

/-- What a server finds on its disk when it is started. -/
theorem loadVersionMap_of_holds {file : Option Bytes} {m : StrMap Int32}
    (h : Holds (file.getD []) m) : StateManager.loadVersionMap file = m := by
  have hload := h.agrees.1
  cases file with
  | none => exact hload
  | some text => exact hload

/-! ### Requests -/

/-- A step that changes the copies only, none of which gets ahead. -/
theorem Backed.of_copies (h : s.Backed) (hrm : t.sys.rm = s.sys.rm) (hacked : t.acked = s.acked)
    (hnodes : ∀ n p file, t.sys.nodes n p = some file → s.sys.nodes n p = some file ∨
      ∃ last, s.acked[p]? = some last ∧ file.version < last.version) : t.Backed where
  copies n p file hfile := by
    rw [hacked]
    rcases hnodes n p file hfile with hold | ⟨last, hlast, hlt⟩
    · exact h.copies n p file hold
    · exact ⟨last, hlast, Int32.le_of_lt hlt, fun heq => absurd heq (Int32.ne_of_lt hlt)⟩
  named := hacked ▸ h.named
  known := by
    rw [hrm, hacked]
    exact h.known
  disk := by
    rw [hrm, hacked]
    exact h.disk

/-- A request that is carried out: the copies of its file are new ones or behind. -/
theorem Backed.write (h : s.Backed) {rm : ReplicationManager} (q : Bytes)
    (file : Option StoredFile) (hfile : ∀ f, file = some f → FileName q ∧ 0 ≤ f.version)
    (hrm : t.sys.rm = rm.persistState)
    (hversions : rm.persistedVersionMap
      = record s.sys.rm.persistedVersionMap (some (q, file.map StoredFile.version)))
    (hacked : t.acked = record s.acked (some (q, file)))
    (hother : ∀ n p f, p ≠ q → t.sys.nodes n p = some f → s.sys.nodes n p = some f)
    (hcopies : ∀ n f, t.sys.nodes n q = some f →
      ∃ last, file = some last ∧ (f = last ∨ f.version < last.version)) : t.Backed := by
  have hnamed : ∀ (p : Bytes) last, t.acked[p]? = some last → FileName p := by
    intro p last hlast
    rw [hacked, getElem?_record_some] at hlast
    by_cases hp : q = p
    · rw [if_pos hp] at hlast
      exact hp ▸ (hfile last hlast).1
    · rw [if_neg hp] at hlast
      exact h.named p last hlast
  have hknown : Within t.acked rm.persistedVersionMap := by
    rw [hacked, hversions]
    exact h.known.record fun f hf => (hfile f hf).2
  refine ⟨fun n p f hf => ?_, hnamed, by rw [hrm]; exact hknown, ?_⟩
  · rw [hacked, getElem?_record_some]
    by_cases hp : q = p
    · subst hp
      obtain ⟨last, hlast, rfl | hlt⟩ := hcopies n f hf
      · exact ⟨f, by rw [if_pos rfl, hlast], Int32.le_refl _, fun _ => rfl⟩
      · exact ⟨last, by rw [if_pos rfl, hlast], Int32.le_of_lt hlt,
          fun heq => absurd heq (Int32.ne_of_lt hlt)⟩
    · rw [if_neg hp]
      exact h.copies n p f (hother n p f (Ne.symm hp) hf)
  · rw [hrm]
    exact hknown.onDisk hnamed

/-- The copies of a write that reaches its quorum with a version above the last one. -/
theorem Backed.fanOut (h : s.Backed) {filePath : Bytes} {file f : StoredFile} {n : Bytes}
    {answer : Bytes → SessionId → WriteAnswer} {targets : List (Bytes × SessionId)}
    (habove : ∀ last, s.acked[filePath]? = some last → last.version < file.version)
    (hcopy : (fanOut answer filePath file targets s.sys.nodes).1 n filePath = some f) :
    ∃ last, some file = some last ∧ (f = last ∨ f.version < last.version) := by
  refine ⟨file, rfl, ?_⟩
  rcases fanOut_copies _ _ _ _ _ hcopy with hold | ⟨-, rfl, -⟩
  · obtain ⟨last, hlast, hle, -⟩ := h.copies n filePath f hold
    exact Or.inr (Int32.lt_of_le_of_lt hle (habove last hlast))
  · exact Or.inl rfl

theorem Backed.create (h : s.Backed) {filePath : Bytes} {version : Int32} {origin fileData : Bytes}
    {answer : Bytes → SessionId → WriteAnswer} {rollback : Bytes → SessionId → DeleteAnswer}
    (horderly : s.Orderly (.serve (.create filePath version origin fileData answer rollback)))
    (hstep : s.step (.serve (.create filePath version origin fileData answer rollback)) = some t) :
    t.Backed := by
  obtain rfl := Option.some.inj hstep
  rw [Orderly] at horderly
  split at horderly
  · rename_i hcommit
    obtain ⟨hname, hpos, habove⟩ := horderly
    have hsys :=
      (System.create_of_commits s.sys answer rollback filePath version origin fileData hcommit).2
    have hnodes : (s.sys.step (.create filePath version origin fileData answer rollback)).nodes
        = (Squid.fanOut answer filePath ⟨fileData, version⟩ s.sys.rm.dataNodeEndpointMap.toList
          s.sys.nodes).1 := by rw [System.step, hsys]
    refine h.write filePath (some ⟨fileData, version⟩) ?_
      (congrArg System.rm hsys) ?_ ?_ (fun n p f hp hf => ?_) fun n f hf => ?_
    · rintro f ⟨⟩
      exact ⟨hname, hpos⟩
    · simp [record]
    · simp [written, hcommit]
    · rw [hnodes] at hf
      exact (fanOut_nodes_of_ne answer _ s.sys.nodes fun hpp => absurd hpp hp).symm.trans hf
    · rw [hnodes] at hf
      exact h.fanOut habove hf
  · rename_i hreject
    have hsys :=
      (System.create_of_rejected s.sys answer rollback filePath version origin fileData hreject).2
    refine h.of_copies (by rw [System.step, hsys]) (by simp [written, hreject, record])
      fun n p f hf => ?_
    rw [System.step, hsys] at hf
    obtain ⟨hkept, hnot⟩ := deleteAll_copies _ _ _ _ hf
    rcases fanOut_copies _ _ _ _ _ hkept with hold | ⟨rfl, rfl, session, hmem, hstores⟩
    · exact Or.inl hold
    · rcases horderly with hbehind | htaken
      · exact Or.inr hbehind
      · -- a datanode that ACKed is sent the rollback
        have hget := Std.ExtTreeMap.mem_toList_iff_getElem?_eq_some.mp hmem
        obtain ⟨hack, hdel⟩ := htaken n session hget hstores
        have hin : (n, session) ∈ s.sys.rm.dataNodeEndpointMap.toList.filter
            fun t => (answer t.1 t.2).acks := by simp [hmem, hack, WriteAnswer.acks]
        rw [fanOut_ackedNodes] at hnot
        rw [hnot rfl session hin] at hdel
        exact absurd hdel (by decide)

/-- A server that knows the version of a file gives the next write a higher one. -/
theorem Backed.lt_newVersion {filePath : Bytes} {seen : Int32} (hsettled : s.Settled filePath)
    (hpos : 0 ≤ s.sys.newVersion filePath seen) (h : s.Backed) {last : StoredFile}
    (hlast : s.acked[filePath]? = some last) : last.version < s.sys.newVersion filePath seen := by
  have hv : s.sys.rm.persistedVersionMap[filePath]? = some last.version := by
    rw [hsettled, hlast, Option.map_some]
  have hnonneg := (h.known filePath _ hv).1
  rw [System.newVersion, hv, Option.getD_some] at hpos ⊢
  rw [lt_add_one_iff]
  intro hmax
  rw [hmax] at hpos
  exact absurd hpos (by decide)

theorem Backed.update (h : s.Backed) {filePath : Bytes} {seen : Int32} {origin fileData : Bytes}
    {answer : Bytes → SessionId → WriteAnswer}
    (horderly : s.Orderly (.serve (.update filePath seen origin fileData answer)))
    (hstep : s.step (.serve (.update filePath seen origin fileData answer)) = some t) :
    t.Backed := by
  obtain rfl := Option.some.inj hstep
  rw [Orderly] at horderly
  split at horderly
  · rename_i hcommit
    obtain ⟨hname, hpos, hsettled⟩ := horderly
    have hsys := (System.update_of_commits s.sys answer filePath seen origin fileData hcommit).2
    have hnodes : (s.sys.step (.update filePath seen origin fileData answer)).nodes
        = (Squid.fanOut answer filePath ⟨fileData, s.sys.newVersion filePath seen⟩
          (s.sys.rm.holders filePath).toList s.sys.nodes).1 := by rw [System.step, hsys]
    refine h.write filePath (some ⟨fileData, s.sys.newVersion filePath seen⟩) ?_
      (congrArg System.rm hsys) ?_ ?_ (fun n p f hp hf => ?_) fun n f hf => ?_
    · rintro f ⟨⟩
      exact ⟨hname, hpos⟩
    · rfl
    · simp [written, hcommit]
    · rw [hnodes] at hf
      exact (fanOut_nodes_of_ne answer _ s.sys.nodes fun hpp => absurd hpp hp).symm.trans hf
    · rw [hnodes] at hf
      exact h.fanOut (fun last hlast => h.lt_newVersion hsettled hpos hlast) hf
  · rename_i hreject
    have hsys := (System.update_of_rejected s.sys answer filePath seen origin fileData hreject).2
    refine h.of_copies (by rw [System.step, hsys]) (by simp [written, hreject, record])
      fun n p f hf => Or.inl ?_
    rw [System.step, hsys] at hf
    rcases fanOut_copies _ _ _ _ _ hf with hold | ⟨-, -, session, hmem, hstores⟩
    · exact hold
    · rw [horderly n session (Std.ExtTreeMap.mem_toList_iff_getElem?_eq_some.mp hmem)] at hstores
      exact absurd hstores (by decide)

theorem Backed.delete (h : s.Backed) {filePath origin : Bytes}
    {answer : Bytes → SessionId → DeleteAnswer}
    (horderly : s.Orderly (.serve (.delete filePath origin answer)))
    (hstep : s.step (.serve (.delete filePath origin answer)) = some t) : t.Backed := by
  obtain rfl := Option.some.inj hstep
  have hgone : ∀ n f, deleteAll answer filePath (s.sys.rm.holders filePath).toList s.sys.nodes
      n filePath ≠ some f := by
    intro n f hf
    obtain ⟨hold, hnot⟩ := deleteAll_copies _ _ _ _ hf
    obtain ⟨session, hget, hdel⟩ := horderly n f hold
    rw [hnot rfl session (Std.ExtTreeMap.mem_toList_iff_getElem?_eq_some.mpr hget)] at hdel
    exact absurd hdel (by decide)
  by_cases hcommit : s.sys.deleteCommits filePath answer = true
  · have hsys := congrArg Prod.fst (System.delete_of_commits hcommit origin)
    refine h.write filePath none (by simp) (congrArg System.rm hsys) rfl
      (by simp [written, hcommit]) (fun n p f hp hf => ?_) fun n f hf => ?_
    · rw [System.step, hsys] at hf
      exact (deleteAll_copies _ _ _ _ hf).1
    · rw [System.step, hsys] at hf
      exact absurd hf (hgone n f)
  · have hsys := congrArg Prod.fst (System.delete_of_rejected hcommit origin)
    refine h.of_copies (by rw [System.step, hsys]) (by simp [written, hcommit, record])
      fun n p f hf => Or.inl ?_
    rw [System.step, hsys] at hf
    exact (deleteAll_copies _ _ _ _ hf).1

/-! ### Datanodes that come and go -/

/-- A report is no further than the last acknowledged writes. -/
theorem Backed.reports (h : s.Backed) {name : Bytes} {fileVersionMap : StrMap Int32}
    (hreports : Reports s.sys name fileVersionMap) {v : Int32}
    (hv : fileVersionMap[p]? = some v) : ∃ last, s.acked[p]? = some last ∧ v ≤ last.version := by
  obtain ⟨bytes, hcopy⟩ := hreports p v hv
  obtain ⟨last, hlast, hle, -⟩ := h.copies name p _ hcopy
  exact ⟨last, hlast, hle⟩

/-- What a reported version makes of the known one. -/
theorem Within.report {acked : StrMap StoredFile} {versions report : StrMap Int32}
    (h : Within acked versions)
    (hreport : ∀ v, report[p]? = some v → ∃ last, acked[p]? = some last ∧ v ≤ last.version)
    {v : Int32} (hv : raiseAll 0 versions[p]? report[p]?.toList = some v) :
    0 ≤ v ∧ ∃ last, acked[p]? = some last ∧ v ≤ last.version := by
  obtain ⟨⟨hmem, hlt⟩ | hold, -⟩ := (raiseAll_eq_some_iff 0 _ _ v).mp hv
  · refine ⟨?_, hreport v (Option.mem_toList.mp hmem)⟩
    cases hbefore : versions[p]? with
    | none =>
      rw [hbefore, Option.getD_none] at hlt
      exact Int32.le_of_lt hlt
    | some u =>
      rw [hbefore, Option.getD_some] at hlt
      exact Int32.le_trans (h p u hbefore).1 (Int32.le_of_lt hlt)
  · exact h p v hold

theorem FileName.legal (h : FileName p) : p ≠ [] ∧ LegalPath p :=
  ⟨h.1.1, fun hnewline => absurd (h.1.2 _ hnewline) (by decide), h.2⟩

theorem nonneg_of_lt {v : Int32} (h : (-1 : Int32) < v) : 0 ≤ v := by
  have hone : (-1 : Int32).toInt = -1 := by decide
  have hzero : (0 : Int32).toInt = 0 := by decide
  rw [Int32.lt_iff_toInt_lt, hone] at h
  rw [Int32.le_iff_toInt_le, hzero]
  omega

/-- One file of a reply, in the loop that builds the lock map: its version is written to disk
when the disk has an older one. -/
theorem OnDisk.buildFileLock {acked : StrMap StoredFile} {rm : ReplicationManager}
    (h : OnDisk acked rm) (hnamed : ∀ (p : Bytes) last, acked[p]? = some last → FileName p)
    {file : Bytes × Int32} (hreport : ∃ last, acked[file.1]? = some last ∧ file.2 ≤ last.version) :
    OnDisk acked (rm.buildFileLock file) := by
  obtain ⟨m, hholds, hwithin, hahead⟩ := h
  obtain ⟨last, hlast, hle⟩ := hreport
  have hname := hnamed file.1 last hlast
  simp only [ReplicationManager.buildFileLock]
  split
  · rename_i hbehind
    have hdisk : m[file.1]?.getD (-1) < file.2 := by
      rw [← hholds.agrees.2 file.1 hname.legal.1 hname.legal.2]
      exact hbehind
    have hpos : 0 ≤ file.2 := by
      cases hv : m[file.1]? with
      | none =>
        rw [hv, Option.getD_none] at hdisk
        exact nonneg_of_lt hdisk
      | some v =>
        rw [hv, Option.getD_some] at hdisk
        exact Int32.le_trans (hwithin file.1 v hv).1 (Int32.le_of_lt hdisk)
    refine ⟨m.insert file.1 file.2, hholds.setFileVersion hname.1 hname.2 file.2, ?_, ?_⟩
    · intro p v hv
      by_cases hp : file.1 = p
      · subst hp
        rw [Std.ExtTreeMap.getElem?_insert_self] at hv
        obtain rfl := Option.some.inj hv
        exact ⟨hpos, last, hlast, hle⟩
      · refine hwithin p v ?_
        rwa [Std.ExtTreeMap.getElem?_insert, if_neg (by simpa using hp)] at hv
    · intro p
      refine (hahead p).trans ?_
      by_cases hp : file.1 = p
      · subst hp
        rw [Std.ExtTreeMap.getElem?_insert_self]
        cases hv : m[file.1]? with
        | none => trivial
        | some v =>
          rw [hv, Option.getD_some] at hdisk
          exact Int32.le_of_lt hdisk
      · rw [Std.ExtTreeMap.getElem?_insert, if_neg (by simpa using hp)]
        exact .refl _
  · exact ⟨m, hholds, hwithin, hahead⟩

theorem OnDisk.buildFileLockMap {acked : StrMap StoredFile} {rm : ReplicationManager}
    (h : OnDisk acked rm) (hnamed : ∀ (p : Bytes) last, acked[p]? = some last → FileName p)
    {replies : List (StrMap Int32)} (hreplies : ∀ reply ∈ replies, ∀ (p : Bytes) v,
      reply[p]? = some v → ∃ last, acked[p]? = some last ∧ v ≤ last.version) :
    OnDisk acked (rm.buildFileLockMap replies) := by
  refine List.foldlRecOn (motive := OnDisk acked) replies _ h fun before hbefore reply hreply => ?_
  refine List.foldlRecOn (motive := OnDisk acked) reply.toList _ hbefore fun rm hrm file hfile => ?_
  exact hrm.buildFileLock hnamed
    (hreplies reply hreply file.1 file.2 (Std.ExtTreeMap.mem_toList_iff_getElem?_eq_some.mp hfile))

theorem Backed.register (h : s.Backed) {name : Bytes} {session : SessionId}
    {fileVersionMap : StrMap Int32} {replies : List (StrMap Int32)}
    (horderly : s.Orderly (.serve (.register name session fileVersionMap replies)))
    (hstep : s.step (.serve (.register name session fileVersionMap replies)) = some t) :
    t.Backed := by
  obtain rfl := Option.some.inj hstep
  obtain ⟨hreports, hreplies⟩ := horderly
  let rm := { s.sys.rm with
    dataNodeEndpointMap := s.sys.rm.dataNodeEndpointMap.insert name session }
  have hknown : Within s.acked
      (rm.registerDataNodeFiles name session fileVersionMap).persistedVersionMap := by
    intro p v hv
    rw [ReplicationManager.getElem?_registerDataNodeFiles] at hv
    exact h.known.report (fun v hv => h.reports hreports hv) hv
  refine ⟨h.copies, h.named, ?_, ?_⟩
  · intro p v hv
    refine hknown p v ?_
    rwa [System.step, ReplicationManager.acceptDataNode,
      ReplicationManager.persistedVersionMap_buildFileLockMap] at hv
  · refine (hknown.onDisk h.named).buildFileLockMap h.named
      fun reply hreply p v hv => ?_
    obtain ⟨n, hn⟩ := hreplies reply hreply
    exact h.reports hn hv

/-- A rebalance copies the file that the server knows the version of. -/
theorem Backed.rebalance (h : s.Backed) (hfile : Tracked.Persisted s.sys.rm)
    {answer : System.RebalanceAnswers} {target : Bytes × StrMap SessionId}
    (hsource : Tracked.SourceCurrent answer s.sys target) :
    Backed { s with sys := System.rebalanceFileReplication answer s.sys target } := by
  have hpersisted := Tracked.rebalance_persisted answer hfile target
  have hknown : Within s.acked
      (System.rebalanceFileReplication answer s.sys target).rm.persistedVersionMap := by
    rw [System.persistedVersionMap_rebalance]
    exact h.known
  refine ⟨fun n p f hf => ?_, h.named, hknown, ?_⟩
  · rcases Tracked.rebalance_copies answer hf with hold | ⟨rfl, source, session, rest, file, hlist,
      hserved, hcopy, rfl⟩
    · exact h.copies n p f hold
    · have hv := hsource source session rest hlist hserved file hcopy
      obtain ⟨last, hlast, hle, hbytes⟩ := h.copies source target.1 file hcopy
      have hname := h.named target.1 last hlast
      -- the copies are labelled with the version that is on the server's disk
      have hlabel : s.sys.rm.getFileVersion target.1 = file.version := by
        rw [ReplicationManager.getFileVersion, hfile, Option.getD_some,
          (h.known.holds h.named).agrees.2 target.1 hname.legal.1 hname.legal.2, hv,
          Option.getD_some]
      rw [hlabel]
      exact ⟨last, hlast, hle, hbytes⟩
  · have hdisk := hknown.onDisk h.named
    rw [ReplicationManager.persistState, ← hpersisted] at hdisk
    exact hdisk

theorem Backed.rebalance_all (h : s.Backed) (hfile : Tracked.Persisted s.sys.rm)
    {answer : System.RebalanceAnswers} {targets : List (Bytes × StrMap SessionId)}
    (hdistinct : targets.Pairwise fun t t' => t.1 ≠ t'.1)
    (hsources : ∀ target ∈ targets, Tracked.SourceCurrent answer s.sys target) :
    Backed { s with sys := targets.foldl (System.rebalanceFileReplication answer) s.sys } := by
  induction targets generalizing s with
  | nil => exact h
  | cons target targets ih =>
    obtain ⟨hne, hrest⟩ := List.pairwise_cons.mp hdistinct
    have hone := h.rebalance hfile (hsources target List.mem_cons_self)
    rw [List.foldl_cons]
    refine ih hone (Tracked.rebalance_persisted answer hfile target) hrest fun other hother => ?_
    exact (hsources other (List.mem_cons_of_mem _ hother)).rebalance answer (hne other hother)

theorem Backed.evict (h : s.Backed) {name : Bytes} {answer : System.RebalanceAnswers}
    (horderly : s.Orderly (.serve (.evict name answer)))
    (hstep : s.step (.serve (.evict name answer)) = some t) : t.Backed := by
  obtain rfl := Option.some.inj hstep
  -- the holder is taken out of the map and the state is persisted first
  let holdersLeft : StrMap (StrMap SessionId) :=
    s.sys.rm.dataNodeReplicationMap.map fun _ (h : StrMap SessionId) => h.erase name
  let rm := { s.sys.rm with dataNodeReplicationMap := holdersLeft }
  have hknown : Within s.acked rm.persistedVersionMap := h.known
  have hleft : Backed { s with sys := { s.sys with rm := rm.persistState } } :=
    ⟨h.copies, h.named, h.known, hknown.onDisk h.named⟩
  exact hleft.rebalance_all rfl (System.rebalanceTargets_distinct s.sys.rm name) horderly

/-! ### Restarts and failovers -/

/-- A server that is started on a disk with nothing newer than what was acknowledged. -/
theorem Backed.start (h : s.Backed) {replicationFactor : ℕ} {versionFile : Option Bytes}
    {m : StrMap Int32} (hholds : Holds (versionFile.getD []) m) (hwithin : Within s.acked m)
    (hsys : t.sys = { s.sys with rm := ReplicationManager.start replicationFactor versionFile })
    (hacked : t.acked = s.acked) : t.Backed := by
  have hload := loadVersionMap_of_holds hholds
  have hknown : t.sys.rm.persistedVersionMap = m := by rw [hsys]; exact hload
  have hdisk : t.sys.rm.versionFile = versionFile := by rw [hsys]; rfl
  refine ⟨?_, ?_, ?_, m, ?_, ?_, fun p => ?_⟩
  · rw [hsys, hacked]
    exact h.copies
  · rw [hacked]
    exact h.named
  · rw [hknown, hacked]
    exact hwithin
  · rw [hdisk]
    exact hholds
  · rw [hacked]
    exact hwithin
  · rw [hknown]
    exact .refl _

/-- **One step**, whatever the event. -/
theorem backed_step (s : Service) (event : ServiceEvent) (t : Service) (h : s.Backed)
    (horderly : s.Orderly event) (hstep : s.step event = some t) : t.Backed := by
  cases event with
  | restart =>
    obtain ⟨m, hholds, hwithin, -⟩ := h.disk
    obtain rfl := Option.some.inj hstep
    exact h.start hholds hwithin rfl rfl
  | promote replicationFactor versionFile =>
    obtain ⟨m, hholds, hwithin⟩ := horderly
    obtain rfl := Option.some.inj hstep
    exact h.start hholds hwithin rfl rfl
  | serve event =>
    cases event with
    | create => exact h.create horderly hstep
    | update => exact h.update horderly hstep
    | delete => exact h.delete horderly hstep
    | register => exact h.register horderly hstep
    | evict => exact h.evict horderly hstep
    | read | loseEndpoint =>
      obtain rfl := Option.some.inj hstep
      exact ⟨h.copies, h.named, h.known, h.disk⟩

theorem backed_start (replicationFactor : ℕ) : (start replicationFactor).Backed where
  copies n p file hfile := by simp [start] at hfile
  named p last hlast := by simp [start] at hlast
  known p v hv := by simp [start, ReplicationManager.start, StateManager.loadVersionMap] at hv
  disk := ⟨∅, holds_empty, fun p v hv => by simp at hv, fun p => VersionLE.refl _⟩

/-! ### Which files are settled -/

/-- A report changes nothing about a file whose version is known. -/
theorem Backed.settled_register (h : s.Backed) (hsettled : s.Settled p) {name : Bytes}
    {session : SessionId} {fileVersionMap : StrMap Int32} {replies : List (StrMap Int32)}
    (hreports : Reports s.sys name fileVersionMap) :
    (s.sys.step (.register name session fileVersionMap replies)).rm.persistedVersionMap[p]?
      = s.sys.rm.persistedVersionMap[p]? := by
  rw [System.step, ReplicationManager.getElem?_acceptDataNode]
  refine raiseAll_eq_self 0 _ fun v hv => ?_
  obtain ⟨last, hlast, hle⟩ := h.reports hreports (Option.mem_toList.mp hv)
  rw [hsettled, hlast]
  exact hle

/-- A server that is restarted finds the version again. -/
theorem Backed.settled_restart (h : s.Backed) (hsettled : s.Settled p) :
    (StateManager.loadVersionMap s.sys.rm.versionFile)[p]?
      = s.acked[p]?.map StoredFile.version := by
  obtain ⟨m, hholds, hwithin, hahead⟩ := h.disk
  have hle := hahead p
  rw [loadVersionMap_of_holds hholds, ← hsettled]
  rw [Settled] at hsettled
  cases hm : m[p]? with
  | none =>
    rw [hm] at hle
    cases hv : s.sys.rm.persistedVersionMap[p]? with
    | none => rfl
    | some v =>
      rw [hv] at hle
      exact absurd hle id
  | some u =>
    obtain ⟨-, last, hlast, hmax⟩ := hwithin p u hm
    rw [hlast, Option.map_some] at hsettled
    rw [hm, hsettled] at hle
    rw [hsettled, Int32.le_antisymm hmax hle]

/-- **Only a failover** unsettles a file. -/
theorem settled_step (h : s.Backed) {event : ServiceEvent} (horderly : s.Orderly event)
    (hstep : s.step event = some t) (hevent : event.isPromotion = false) (hsettled : s.Settled p) :
    t.Settled p := by
  cases event with
  | promote => simp [ServiceEvent.isPromotion] at hevent
  | restart =>
    obtain rfl := Option.some.inj hstep
    exact h.settled_restart hsettled
  | serve event =>
    obtain rfl := Option.some.inj hstep
    by_cases hreport : ∃ name session fileVersionMap replies,
      event = .register name session fileVersionMap replies
    · obtain ⟨name, session, fileVersionMap, replies, rfl⟩ := hreport
      exact (h.settled_register hsettled horderly.1).trans hsettled
    · simp only [not_exists] at hreport
      rw [Settled, persistedVersionMap_step s hreport, versionWritten]
      cases s.written event with
      | none => exact hsettled
      | some w =>
        rw [Option.map_some, getElem?_record_some, getElem?_record_some]
        split
        · rfl
        · exact hsettled

/-- A write that is carried out settles its file. -/
theorem settled_of_written {event : ServerEvent} {file : Option StoredFile}
    (hwritten : s.written event = some (p, file)) :
    Settled p ⟨s.sys.step event, record s.acked (s.written event)⟩ := by
  have hreport : ∀ name session fileVersionMap replies,
      event ≠ .register name session fileVersionMap replies := by
    rintro name session fileVersionMap replies rfl
    simp [written] at hwritten
  rw [Settled, persistedVersionMap_step s hreport, versionWritten, hwritten, Option.map_some,
    getElem?_record_some, getElem?_record_some, if_pos rfl, if_pos rfl]

/-- A report of a current copy settles its file. -/
theorem Backed.settled_of_report (h : s.Backed) {last : StoredFile}
    (hlast : s.acked[p]? = some last) (hpos : 0 < last.version) {report : StrMap Int32}
    (hreport : report[p]? = some last.version) :
    raiseAll 0 s.sys.rm.persistedVersionMap[p]? report[p]?.toList = some last.version := by
  rw [raiseAll_eq_some_iff, hreport]
  refine ⟨?_, fun u hu => Int32.le_of_eq (List.mem_singleton.mp hu)⟩
  cases hv : s.sys.rm.persistedVersionMap[p]? with
  | none => exact Or.inl ⟨List.mem_singleton_self _, hpos⟩
  | some v =>
    obtain ⟨-, last', hlast', hle⟩ := h.known p v hv
    obtain rfl : last = last' := Option.some.inj (hlast.symm.trans hlast')
    by_cases hlt : v < last.version
    · exact Or.inl ⟨List.mem_singleton_self _, hlt⟩
    · exact Or.inr (congrArg some (Int32.le_antisymm hle (Int32.not_lt.mp hlt)))

theorem settled_of_settles (h : s.Backed) {event : ServiceEvent}
    (hstep : s.step event = some t) (hsettles : s.Settles p event) : t.Settled p := by
  cases event with
  | promote | restart => exact absurd hsettles id
  | serve event =>
    obtain rfl := Option.some.inj hstep
    cases event with
    | register name session fileVersionMap replies =>
      obtain ⟨last, hlast, hreport, hpos⟩ := hsettles
      rw [Settled, System.step, ReplicationManager.getElem?_acceptDataNode,
        h.settled_of_report hlast hpos hreport]
      exact (congrArg (Option.map StoredFile.version) hlast).symm
    | create | update | delete | read | loseEndpoint | evict =>
      obtain ⟨file, hwritten⟩ := hsettles
      exact settled_of_written hwritten

/-! ### Reads -/

/-- A read of a settled file returns the last acknowledged write. -/
theorem Backed.read (h : s.Backed) (hsettled : s.Settled p)
    {answer : Bytes → SessionId → ReadAnswer} {bytes : Bytes}
    (hread : s.sys.getFileFromDataNode answer p = some bytes) :
    s.acked[p]?.map StoredFile.bytes = some bytes := by
  obtain ⟨holder, -, hserved⟩ := List.exists_of_findSome?_eq_some hread
  split at hserved
  · split at hserved
    · simp at hserved
    · rename_i file hfile
      split at hserved
      · rename_i hexpected
        obtain ⟨last, hlast, hle, hbytes⟩ := h.copies _ _ _ hfile
        have hv : s.sys.rm.persistedVersionMap[p]? = some last.version := by
          rw [hsettled, hlast, Option.map_some]
        rw [ReplicationManager.getKnownVersion, hv, Option.getD_some] at hexpected
        -- a copy that is not behind is at the version of the last write
        have heq : file.version = last.version := by
          rcases hexpected with hneg | hge
          · exact absurd (h.known p _ hv).1 (Int32.not_le.mpr hneg)
          · exact Int32.le_antisymm hle hge
        rw [hlast, Option.map_some, ← hbytes heq]
        exact hserved
      · simp at hserved
  · simp at hserved

/-- The server that is running has been told the version of the file, or none has taken over. -/
def Informed (replicationFactor : ℕ) (p : Bytes) (events : List ServiceEvent) : Prop :=
  (∀ e ∈ events, e.isPromotion = false) ∨
    Since step (Settles p) (fun _ e => e.isPromotion = true) (start replicationFactor) events

/-- **Every run**: it is backed, and what it has been told of is settled. -/
theorem settled_run {replicationFactor : ℕ} {events : List ServiceEvent}
    (horderly : Meets step Orderly (start replicationFactor) events)
    (hrun : run step (start replicationFactor) events = some t) :
    t.Backed ∧ (Informed replicationFactor p events → t.Settled p) := by
  let Kept := fun (events : List ServiceEvent) (t : Service) =>
    t.Backed ∧ (Informed replicationFactor p events → t.Settled p)
  refine run_history (P := Kept) ?_ ?_ horderly hrun
  · rintro pre e t u hpre ⟨hbacked, hsettled⟩ hC hstep
    refine ⟨backed_step t e u hbacked hC hstep, ?_⟩
    rintro (hnone | hsince)
    · have hlast := hnone e (List.mem_append_right _ (List.mem_singleton_self e))
      have hbefore := hsettled (Or.inl fun e he => hnone e (List.mem_append_left _ he))
      exact settled_step hbacked hC hstep hlast hbefore
    · rcases (since_concat hpre).mp hsince with hnow | ⟨hbefore, hlast⟩
      · exact settled_of_settles hbacked hstep hnow
      · exact settled_step hbacked hC hstep (Bool.eq_false_of_not_eq_true hlast)
          (hsettled (Or.inr hbefore))
  · -- without files, there is nothing to be told
    refine ⟨backed_start replicationFactor, fun _ => ?_⟩
    simp [Settled, start, ReplicationManager.start, StateManager.loadVersionMap]

end Service

open Service

-- a new server that has only heard of a copy that missed the update takes it for the file
example :
    let report : StrMap Int32 := (∅ : StrMap Int32).insert [102] 1
    let events : List ServiceEvent := [.serve (.register [97] 0 ∅ []),
      .serve (.register [98] 1 ∅ []), .serve (.register [99] 2 ∅ []),
      .serve (.create [102] 1 [99] [120] (fun _ _ => .acked) (fun _ _ => .acked)),
      .serve (.update [102] 1 [99] [121] (fun n _ => if n = [99] then .refused else .acked)),
      .promote 3 none, .serve (.register [99] 5 report [])]
    (run step (start 3) events).map (fun t => (t.acked[([102] : Bytes)]?.map StoredFile.bytes,
      t.sys.getFileFromDataNode (fun _ _ => .served) [102])) = some (some [121], some [120]) := by
  decide +kernel

end Squid
