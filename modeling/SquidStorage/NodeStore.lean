/-
A datanode behind its session, as a store.

The server's calls go to a datanode as frames and unframed file bytes; the datanode keeps the
bytes in files and the versions as lines of a text.  As long as every call can be carried
through, none of this shows: the server gets the answers of a map from paths to files.

* `Contents` — the disk stores the files of a map, with their versions;
* `Contents.stored`, `Contents.deleted` — the two changes;
* `call_of_served` — a call over the byte streams is the call on the disk;
* `session_refines_store` — all calls of a session, one after the other.
-/
import SquidStorage.StreamAlignment
import SquidStorage.DataNodeInventory
import SquidStorage.VersionWriters
import SquidStorage.MapTransfer
import SquidStorage.HolderReads
import SquidStorage.Responders

open BigEndian TextStream LastWrite

namespace Squid

/-! ### What a disk stores -/

/-- The versions of the files. -/
def fileVersions (store : StrMap StoredFile) : StrMap Int32 := store.map fun _ file => file.version

/-- The disk stores these files.  (A line of the version file may be there twice.) -/
structure Contents (store : StrMap StoredFile) (disk : Disk) : Prop where
  saved : ∃ entries, Words entries ∧ disk.versionText = versionLines entries ∧
    ∀ p v, (p, v) ∈ entries ↔ (fileVersions store)[p]? = some v
  files : ∀ p, p ≠ versionFilePath → disk.files[p]? = store[p]?.map StoredFile.bytes
  paths : ∀ p ∈ store, StoragePath p

theorem getElem?_fileVersions (store : StrMap StoredFile) (p : Bytes) :
    (fileVersions store)[p]? = store[p]?.map StoredFile.version := by
  rw [fileVersions, Std.ExtTreeMap.getElem?_map]

theorem fileVersions_insert (store : StrMap StoredFile) (p : Bytes) (file : StoredFile) :
    fileVersions (store.insert p file) = (fileVersions store).insert p file.version := by
  refine Std.ExtTreeMap.ext_getElem? fun q => ?_
  simp only [getElem?_fileVersions, Std.ExtTreeMap.getElem?_insert]
  split <;> rfl

theorem fileVersions_erase (store : StrMap StoredFile) (p : Bytes) :
    fileVersions (store.erase p) = (fileVersions store).erase p := by
  refine Std.ExtTreeMap.ext_getElem? fun q => ?_
  simp only [getElem?_fileVersions, Std.ExtTreeMap.getElem?_erase]
  split <;> rfl

namespace Contents

variable {store : StrMap StoredFile} {disk : Disk} {p : Bytes}

theorem getFileVersion (h : Contents store disk) (p : Bytes) :
    disk.getFileVersion p = (store[p]?.map StoredFile.version).getD (-1) := by
  obtain ⟨entries, hwords, htext, hentries⟩ := h.saved
  rw [Disk.getFileVersion, htext, FileManager.getFileVersion_words hwords,
    find_of_entries hentries, getElem?_fileVersions]

/-- The datanode reports of a file that it stores what the reads of the system rely on. -/
theorem getFileVersion_eq_reported (h : Contents store disk) {file : StoredFile}
    (hfile : store[p]? = some file) : disk.getFileVersion p = reportedVersion p file := by
  have hpath : StoragePath p := h.paths p (mem_iff_exists_entry.mpr ⟨file, hfile⟩)
  rw [h.getFileVersion, hfile, reportedVersion, if_pos hpath.word]
  rfl

theorem inventory (h : Contents store disk) : Inventory (fileVersions store) disk where
  saved := by
    obtain ⟨entries, hwords, htext, hentries⟩ := h.saved
    refine ⟨entries, hwords, htext, Std.ExtTreeMap.ext_getElem? fun q => ?_⟩
    rw [getElem?_savedVersions]
    exact find_of_entries (fun p v => by rw [List.mem_reverse]; exact hentries p v) q
  files q hq := by
    rw [mem_iff_exists_entry, mem_iff_exists_entry, h.files q hq, getElem?_fileVersions]
    cases store[q]? with
    | none => simp
    | some file => simp
  paths q hq := by
    refine h.paths q ?_
    obtain ⟨v, hv⟩ := mem_iff_exists_entry.mp hq
    rw [getElem?_fileVersions] at hv
    obtain ⟨file, hfile, -⟩ := Option.map_eq_some_iff.mp hv
    exact mem_of_entry hfile

/-- A file is stored under a version. -/
theorem stored (h : Contents store disk) (hp : StoragePath p) (file : StoredFile) :
    Contents (store.insert p file)
      ((disk.store p file.bytes).setFileVersion p file.version) where
  saved := by
    obtain ⟨entries, hwords, htext, hentries⟩ := h.saved
    refine ⟨_, ?_, ?_, fun q v => (FileManager.mem_replaced entries p file.version (q, v)).trans ?_⟩
    · intro e he
      rcases (FileManager.mem_replaced entries p file.version e).mp he with rfl | ⟨hold, -⟩
      · exact hp.word
      · exact hwords e hold
    · rw [Disk.setFileVersion, Inventory.versionText_store,
        Inventory.versionText_store_other disk hp.ne_versionFilePath, htext,
        FileManager.setFileVersion_words_eq hwords]
    · rw [hentries, fileVersions_insert, Std.ExtTreeMap.getElem?_insert]
      by_cases hq : p = q
      · subst hq
        simp [eq_comm]
      · simp [hq, Ne.symm hq]
  files q hq := by
    have hfiles := h.files q hq
    simp only [Disk.setFileVersion, Disk.store, Std.ExtTreeMap.getElem?_insert,
      Std.LawfulEqCmp.compare_eq_iff_eq, if_neg (Ne.symm hq), hfiles]
    split <;> rfl
  paths q hq := by
    rcases Std.ExtTreeMap.mem_insert.mp hq with heq | hmem
    · rwa [← Std.LawfulEqOrd.eq_of_compare heq]
    · exact h.paths q hmem

/-- A file is deleted, or there was none. -/
theorem deleted (h : Contents store disk) (hp : StoragePath p)
    (hresolve : disk.resolvePath p = p) (hremove : disk.removeError p = none) :
    ∃ after, disk.deleteFileAndVersion p = .ok after ∧ Contents (store.erase p) after ∧
      SameSystem disk after := by
  rw [Disk.deleteFileAndVersion, hresolve, hremove]
  dsimp only
  have hfile := h.files p hp.ne_versionFilePath
  by_cases hmem : p ∈ disk.files
  · rw [if_pos hmem]
    obtain ⟨entries, hwords, htext, hentries⟩ := h.saved
    refine ⟨_, rfl, ⟨⟨entries.filter fun e => e.1 ≠ p,
      fun e he => hwords e (List.mem_filter.mp he).1, ?_, fun q v => ?_⟩, fun q hq => ?_,
      fun q hq => h.paths q (Std.ExtTreeMap.mem_erase.mp hq).2⟩, rfl, rfl, rfl⟩
    · rw [Inventory.versionText_store,
        Inventory.versionText_discard_other disk hp.ne_versionFilePath, htext,
        FileManager.dropFileVersion_words_eq hwords]
    · rw [List.mem_filter, hentries, fileVersions_erase, Std.ExtTreeMap.getElem?_erase]
      by_cases hq : p = q
      · subst hq
        simp
      · simp [hq, Ne.symm hq]
    · have hfiles := h.files q hq
      simp only [Disk.store, Disk.discard, Std.ExtTreeMap.getElem?_insert,
        Std.ExtTreeMap.getElem?_erase, Std.LawfulEqCmp.compare_eq_iff_eq, if_neg (Ne.symm hq),
        hfiles]
      split <;> rfl
  · rw [if_neg hmem]
    rw [Std.ExtTreeMap.getElem?_eq_none hmem] at hfile
    have hsame : store.erase p = store := by
      refine Std.ExtTreeMap.ext_getElem? fun q => ?_
      rw [Std.ExtTreeMap.getElem?_erase]
      split
      · rename_i heq
        rw [← Std.LawfulEqOrd.eq_of_compare heq]
        cases hget : store[p]? with
        | none => rfl
        | some file => simp [hget] at hfile
      · rfl
    rw [hsame]
    exact ⟨disk, rfl, h, rfl, rfl, rfl⟩

/-- A disk with nothing on it. -/
theorem fresh {node : DataNode} (hfresh : node.Fresh) : Contents ∅ node.disk where
  saved := ⟨[], by simp [Words], hfresh.1, by simp [getElem?_fileVersions]⟩
  files p hp := by
    rw [Std.ExtTreeMap.getElem?_eq_none fun hmem => hp (hfresh.2 p hmem)]
    simp
  paths := by simp

end Contents

/-! ### The store -/

/-- What the server reads off the reply of a datanode. -/
structure Answer where
  isAck : Bool
  version : Int32 := 0
  files : StrMap Int32 := ∅
  data : Bytes := []

def Answer.ofReply (reply : Message × Bytes) : Answer where
  isAck := reply.1.isAck
  version := gotVersion reply.1
  files := reply.1.getFileVersionMap
  data := reply.2

theorem ofReply_ack (seq : UInt32) (b : Bool) :
    Answer.ofReply (responseMessage seq [fieldBool .ack b], []) = { isAck := b } := by
  have hack : (responseMessage seq [fieldBool .ack b]).isAck = b := isAck_ackMessage b seq
  have hversion : gotVersion (responseMessage seq [fieldBool .ack b]) = 0 := by
    simp [gotVersion, responseMessage, Message.getUint32, Message.findField, fieldBool,
      FieldID.ack, FieldID.fileVersion, toInt32]
  rw [Answer.ofReply, hack, hversion]
  rfl

theorem ofReply_version (seq : UInt32) (v : Int32) (data : Bytes) :
    Answer.ofReply (responseMessage seq
        [fieldBool .ack true, fieldUint32 .fileVersion (toUint32 v)], data)
      = { isAck := true, version := v, data := data } := by
  have hack : (responseMessage seq
      [fieldBool .ack true, fieldUint32 .fileVersion (toUint32 v)]).isAck = true := by
    simp [responseMessage, Message.isAck, Message.isResponse, Message.getBool, Message.findField,
      fieldBool, flagResponse]
  have hversion : gotVersion (responseMessage seq
      [fieldBool .ack true, fieldUint32 .fileVersion (toUint32 v)]) = v := by
    rw [gotVersion, ← toInt32_toUint32 v]
    simp [responseMessage, Message.getUint32, Message.findField, fieldBool, fieldUint32,
      FieldID.ack, FieldID.fileVersion]
  rw [Answer.ofReply, hack, hversion]
  rfl

/-- A list of files has no other fields. -/
theorem findField_files (seq : UInt32) (map : StrMap Int32) {id : FieldID}
    (hfile : id ≠ .fileEntry) (hversion : id ≠ .verEntry) :
    (responseMessage seq (fileVersionFields map)).findField id = none := by
  refine List.find?_eq_none.mpr fun f hf => ?_
  obtain ⟨kv, -, hf⟩ := List.mem_flatMap.mp hf
  simp only [List.mem_cons, List.not_mem_nil, or_false] at hf
  rcases hf with rfl | rfl
  · exact fun h => hfile (of_decide_eq_true h).symm
  · exact fun h => hversion (of_decide_eq_true h).symm

theorem ofReply_files (seq : UInt32) (map : StrMap Int32) :
    Answer.ofReply (responseMessage seq (fileVersionFields map), [])
      = { isAck := false, files := map } := by
  have hack : (responseMessage seq (fileVersionFields map)).isAck = false := by
    rw [Message.isAck, Message.getBool, findField_files seq map (by decide) (by decide),
      Bool.and_false]
  have hversion : gotVersion (responseMessage seq (fileVersionFields map)) = 0 := by
    rw [gotVersion, Message.getUint32, findField_files seq map (by decide) (by decide)]
    rfl
  have hfiles : (responseMessage seq (fileVersionFields map)).getFileVersionMap = map :=
    getFileVersionMap_fields map _ rfl
  rw [Answer.ofReply, hack, hversion, hfiles]

/-- The files directly below the storage root: `syncStatus` lists no others. -/
def listed (store : StrMap StoredFile) : StrMap Int32 :=
  store.filterMap fun p file => if TopLevel p then some file.version else none

/-- The datanode as a map from paths to files. -/
def storeStep (store : StrMap StoredFile) : NodeRpc → Option Answer × StrMap StoredFile
  | .rpc (.createFile p v d) => (some { isAck := true }, store.insert p ⟨d, v⟩)
  | .rpc (.updateFile p v d) => (some { isAck := true, version := v }, store.insert p ⟨d, v⟩)
  | .rpc (.readFile p) =>
    (store[p]?.map fun file => { isAck := true, version := file.version, data := file.bytes }, store)
  | .rpc (.deleteFile p) => (some { isAck := true }, store.erase p)
  | .rpc (.acquireLock _) => (some { isAck := false }, store)
  | .rpc (.releaseLock _) | .rpc .heartbeat => (some { isAck := true }, store)
  | .syncStatus => (some { isAck := false, files := listed store }, store)

/-- A path that can be stored and sent. -/
def Sendable (p : Bytes) : Prop := StoragePath p ∧ p.length ≤ 65535

/-- The calls that the datanode carries through when it stores these files; `disk` says what the
operating system lets it do. -/
def Carried (disk : Disk) (store : StrMap StoredFile) : NodeRpc → Prop
  | .rpc (.createFile p _ d) | .rpc (.updateFile p _ d) =>
    Sendable p ∧ d.length ≤ fileTransferMaxSize ∧ disk.openOutput p = .opened
  | .rpc (.readFile p) =>
    Sendable p ∧ ∃ file, store[p]? = some file ∧ file.bytes.length ≤ fileTransferMaxSize
  | .rpc (.deleteFile p) => Sendable p ∧ disk.removeError p = none
  | .rpc (.acquireLock p) | .rpc (.releaseLock p) => p.length ≤ 65535
  | .rpc .heartbeat => True
  | .syncStatus => (listed store).size ≤ 127

theorem Carried.filePath {disk : Disk} {store : StrMap StoredFile} {r : NodeRpc}
    (h : Carried disk store r) : r.filePath.length ≤ 65535 := by
  cases r with
  | syncStatus => exact Nat.zero_le _
  | rpc q =>
    cases q with
    | createFile p v d | updateFile p v d => exact h.1.2
    | readFile p | deleteFile p => exact h.1.2
    | acquireLock p | releaseLock p => exact h
    | heartbeat => exact Nat.zero_le _

theorem Contents.getFileVersionMap {store : StrMap StoredFile} {disk : Disk}
    (h : Contents store disk) : disk.getFileVersionMap = listed store := by
  refine Std.ExtTreeMap.ext_getElem? fun p => ?_
  rw [h.inventory.getElem?_listing, listed, Std.ExtTreeMap.getElem?_filterMap',
    getElem?_fileVersions]
  cases store[p]? with
  | none => simp
  | some file => simp

/-! ### The session -/

/-- A datanode and the two ends of the server's session with it. -/
structure NodeLink where
  node : DataNode
  ours : Proto
  theirs : Proto

namespace NodeLink

/-- The server makes a call: both ends run on what the other has written. -/
def call (l : NodeLink) (r : NodeRpc) : Outcome (Message × Bytes) × NodeLink :=
  let streams := exchange r.call (serveNode l.node) l.ours l.theirs 2
  let after := afterCall l.node l.ours l.theirs r
  ((r.call.run { l.ours with inp := streams.2 }).1, ⟨after.1, after.2.1, after.2.2⟩)

/-- The answer that the server gets, if it gets one. -/
def answer (l : NodeLink) (r : NodeRpc) : Option Answer × NodeLink :=
  let o := l.call r
  (match o.1 with
    | .done reply => some (.ofReply reply)
    | _ => none, o.2)

/-- The two ends are in step, and the datanode stores these files. -/
structure Stands (disk : Disk) (l : NodeLink) (store : StrMap StoredFile) : Prop where
  ready : Ready l.ours l.theirs
  contents : Contents store l.node.disk
  system : SameSystem disk l.node.disk
  resolves : ∀ p, StoragePath p → disk.resolvePath p = p
  lengths : ∀ p ∈ store, p.length ≤ 65535

variable {disk : Disk} {l : NodeLink} {store : StrMap StoredFile} {r : NodeRpc}

theorem Stands.resolvePath (h : Stands disk l store) {p : Bytes} (hp : StoragePath p) :
    l.node.disk.resolvePath p = p := by
  rw [h.system.1, h.resolves p hp]

/-- What the store is meant for, the datanode serves. -/
theorem Stands.served (h : Stands disk l store) (hcarried : Carried disk store r) :
    r.Served l.node.disk := by
  cases r with
  | syncStatus =>
    refine ⟨by rw [h.contents.getFileVersionMap]; exact hcarried, fun p hp => h.lengths p ?_⟩
    rw [h.contents.getFileVersionMap, listed, Std.ExtTreeMap.mem_filterMap] at hp
    exact hp.1
  | rpc q =>
    cases q with
    | createFile p v d | updateFile p v d =>
      refine ⟨hcarried.2.1, ?_⟩
      rw [h.resolvePath hcarried.1.1, h.system.2.1]
      exact hcarried.2.2
    | readFile p =>
      obtain ⟨hp, file, hfile, hsize⟩ := hcarried
      refine ⟨file.bytes, ?_, hsize⟩
      rw [h.resolvePath hp.1, h.contents.files p hp.1.ne_versionFilePath, hfile]
      rfl
    | deleteFile p =>
      show l.node.disk.removeError _ = none
      rw [h.resolvePath hcarried.1.1, h.system.2.2]
      exact hcarried.2
    | acquireLock p | releaseLock p | heartbeat => trivial

/-- **A call over the byte streams** returns the reply of the datanode's disk. -/
theorem call_of_served (hready : Ready l.ours l.theirs) (hpath : r.filePath.length ≤ 65535)
    (hserved : r.Served l.node.disk) :
    (l.call r).1 = .done (r.reply l.node l.ours) ∧ (l.call r).2.node = r.apply l.node ∧
      Ready (l.call r).2.ours (l.call r).2.theirs := by
  obtain ⟨hnode, hready'⟩ := afterCall_of_served hready l.node r (Or.inr hserved)
  obtain ⟨x, c', s', hfst, hserve, hcall, -⟩ := returns_of_served hready l.node r hpath hserved
  have hstreams : exchange r.call (serveNode l.node) l.ours l.theirs 2 = (x, wire s'.out) := by
    have hstable := Rounds.rounds_stable _ _ hfst (le_refl 2)
    rw [hserve] at hstable
    exact hstable
  refine ⟨?_, ?_, hready'⟩
  · rw [call, hstreams]
    exact congrArg Prod.fst hcall
  · rw [call]
    refine hnode.trans ?_
    rw [NodeRpc.next, if_pos hpath]

/-- The reply of the disk is the answer of the store. -/
theorem Stands.reply (h : Stands disk l store) (hcarried : Carried disk store r) :
    some (Answer.ofReply (r.reply l.node l.ours)) = (storeStep store r).1 := by
  cases r with
  | syncStatus =>
    rw [NodeRpc.reply, ofReply_files, h.contents.getFileVersionMap]
    rfl
  | rpc q =>
    cases q with
    | createFile p v d => exact congrArg some (ofReply_ack _ true)
    | updateFile p v d => exact congrArg some (ofReply_version _ v [])
    | readFile p =>
      obtain ⟨hp, file, hfile, -⟩ := hcarried
      rw [storeStep, hfile, NodeRpc.reply, ofReply_version, h.contents.getFileVersion, hfile,
        h.resolvePath hp.1, h.contents.files p hp.1.ne_versionFilePath, hfile]
      rfl
    | acquireLock p => exact congrArg some (ofReply_ack _ false)
    | deleteFile p | releaseLock p | heartbeat => exact congrArg some (ofReply_ack _ true)

/-- The disk after the call stores the files of the store after it. -/
theorem Stands.apply (h : Stands disk l store) (hcarried : Carried disk store r) :
    Contents (storeStep store r).2 (r.apply l.node).disk ∧
      SameSystem l.node.disk (r.apply l.node).disk := by
  cases r with
  | syncStatus => exact ⟨h.contents, rfl, rfl, rfl⟩
  | rpc q =>
    cases q with
    | createFile p v d | updateFile p v d =>
      have hp := hcarried.1.1
      refine ⟨?_, rfl, rfl, rfl⟩
      rw [NodeRpc.apply, DataNode.stored, h.resolvePath hp]
      exact h.contents.stored hp ⟨d, v⟩
    | deleteFile p =>
      have hp := hcarried.1.1
      have hremove : l.node.disk.removeError p = none := by
        rw [h.system.2.2]
        exact hcarried.2
      obtain ⟨after, hdelete, hcontents, hsystem⟩ :=
        h.contents.deleted hp (h.resolvePath hp) hremove
      rw [NodeRpc.apply, hdelete]
      exact ⟨hcontents, hsystem⟩
    | readFile p | acquireLock p | releaseLock p | heartbeat => exact ⟨h.contents, rfl, rfl, rfl⟩

theorem Stands.lengths_step (h : Stands disk l store) (hcarried : Carried disk store r) :
    ∀ p ∈ (storeStep store r).2, p.length ≤ 65535 := by
  cases r with
  | syncStatus => exact h.lengths
  | rpc q =>
    cases q with
    | createFile p v d | updateFile p v d =>
      intro q hq
      rcases Std.ExtTreeMap.mem_insert.mp hq with heq | hmem
      · rw [← Std.LawfulEqOrd.eq_of_compare heq]
        exact hcarried.1.2
      · exact h.lengths q hmem
    | deleteFile p => exact fun q hq => h.lengths q (Std.ExtTreeMap.mem_erase.mp hq).2
    | readFile p | acquireLock p | releaseLock p | heartbeat => exact h.lengths

/-- **One call.** -/
theorem refines_store (disk : Disk) :
    Responders.Refines answer storeStep (Stands disk) (Carried disk) where
  answer l store r h hcarried := by
    obtain ⟨hcall, -⟩ := call_of_served h.ready hcarried.filePath (h.served hcarried)
    rw [answer, hcall]
    exact h.reply hcarried
  keeps l store r h hcarried := by
    obtain ⟨-, hnode, hready⟩ := call_of_served h.ready hcarried.filePath (h.served hcarried)
    obtain ⟨hcontents, hsystem⟩ := h.apply hcarried
    rw [← hnode] at hcontents hsystem
    exact ⟨hready, hcontents, ⟨hsystem.1.trans h.system.1, hsystem.2.1.trans h.system.2.1,
      hsystem.2.2.trans h.system.2.2⟩, h.resolves, h.lengths_step hcarried⟩

end NodeLink

/-- **A datanode is a store.**  From two ends in step, on a disk that stores the files of a map:
whatever calls the server makes, as long as each can be carried through, every answer that comes
over the byte streams is that of the map, and the disk stores its files in the end. -/
theorem session_refines_store (disk : Disk) (l : NodeLink) (store : StrMap StoredFile)
    (hstands : l.Stands disk store) (calls : List NodeRpc)
    (hcarried : Responders.Within storeStep (Carried disk) store calls) :
    Responders.answers NodeLink.answer l calls = Responders.answers storeStep store calls ∧
      (Responders.after NodeLink.answer l calls).Stands disk
        (Responders.after storeStep store calls) :=
  ⟨(NodeLink.refines_store disk).answers_eq hstands hcarried,
    (NodeLink.refines_store disk).related hstands hcarried⟩

/-- A new session with a datanode that stores nothing. -/
def freshLink : NodeLink := ⟨freshNode, {}, {}⟩

theorem stands_freshLink : freshLink.Stands freshNode.disk ∅ where
  ready := ready_fresh
  contents := .fresh ⟨rfl, by simp [freshLink, freshNode]⟩
  system := ⟨rfl, rfl, rfl⟩
  resolves _ _ := rfl
  lengths := by simp

/-- A file is created, updated, read, listed and deleted. -/
theorem session_refines_store_one_file :
    let f : Bytes := [102]
    let calls : List NodeRpc := [.rpc (.createFile f 0 [1, 2]), .rpc (.updateFile f 1 [3]),
      .rpc (.readFile f), .syncStatus, .rpc (.deleteFile f)]
    Responders.Within storeStep (Carried freshNode.disk) ∅ calls ∧
      (Responders.answers NodeLink.answer freshLink calls)[2]?
        = some (some { isAck := true, version := 1, data := [3] }) := by
  intro f calls
  have hf : Sendable f := ⟨⟨by decide, by decide, by decide⟩, by decide⟩
  have hcarried : Responders.Within storeStep (Carried freshNode.disk) ∅ calls := by
    refine ⟨⟨hf, by decide, rfl⟩, ⟨hf, by decide, rfl⟩, ⟨hf, ⟨[3], 1⟩, by decide, by decide⟩,
      ?_, ⟨hf, rfl⟩, trivial⟩
    show _ ≤ 127
    decide +kernel
  refine ⟨hcarried, ?_⟩
  rw [(session_refines_store freshNode.disk freshLink ∅ stands_freshLink calls hcarried).1]
  rfl

end Squid
