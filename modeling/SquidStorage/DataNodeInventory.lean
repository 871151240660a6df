/-
What a datanode says it stores.

The answer to `SYNC_STATUS` joins two sources: the files that a scan of the storage
root finds, and the versions of `.squid/fileVersions.txt`.  Uploads and deletions
change both.

* `Inventory` — the files and the saved versions are those of the requests so far;
* `requestDispatcher_inventory`, `dispatchAll_inventory` — one request and a sequence
  of requests keep it;
* `inventory_reply_iff` — the answer is exact as long as no path with a directory is
  stored;
* `nested_path_unlisted` — a stored file that the answer leaves out.
-/
import SquidStorage.DataNodeSession
import SquidStorage.VersionLines

open BigEndian TextStream LastWrite

namespace Squid

/-! ### Requests that change what is stored -/

/-- A CREATE_FILE, UPDATE_FILE or DELETE_FILE and the file that is uploaded with it. -/
structure StoreRequest where
  message : Message
  fileData : Bytes
  changes : message.opcode = .createFile ∨ message.opcode = .updateFile ∨
    message.opcode = .deleteFile

namespace StoreRequest

def path (r : StoreRequest) : Bytes := r.message.getString .filePath

def version (r : StoreRequest) : Int32 := toInt32 (r.message.getUint32 .fileVersion 0)

/-- What follows the request on the wire. -/
def upload (r : StoreRequest) : Bytes :=
  if r.message.opcode = .deleteFile then [] else pushU64 r.fileData.length ++ r.fileData

/-- What the request does to the versions of the files that are stored. -/
def apply (versions : StrMap Int32) (r : StoreRequest) : StrMap Int32 :=
  if r.message.opcode = .deleteFile then versions.erase r.path
  else versions.insert r.path r.version

/-- The operating system lets the request through: the output file opens and the
upload is not too large, or removing does not throw. -/
def Succeeds (disk : Disk) (r : StoreRequest) : Prop :=
  if r.message.opcode = .deleteFile then disk.removeError r.path = none
  else disk.openOutput r.path = .opened ∧ r.fileData.length ≤ fileTransferMaxSize

end StoreRequest

/-- The versions that the requests leave, by path. -/
def currentVersions (requests : List StoreRequest) : StrMap Int32 :=
  requests.foldl StoreRequest.apply ∅

/-- The requests, dispatched one after the other. -/
def dispatchAll : List StoreRequest → DataNode → ProtoM DataNode
  | [], node => pure node
  | r :: requests, node => do
    let node ← requestDispatcher node r.message
    dispatchAll requests node

/-- A relative, normalised path without blanks, outside `.squid`. -/
structure StoragePath (p : Bytes) : Prop where
  word : IsWord p
  normal : ∀ part ∈ p.splitOn 0x2f, part ≠ [] ∧ part ≠ [0x2e] ∧ part ≠ [0x2e, 0x2e]
  outside : (p.splitOn 0x2f).head? ≠ some runtimeFile

theorem StoragePath.ne_versionFilePath {p : Bytes} (h : StoragePath p) : p ≠ versionFilePath := by
  rintro rfl
  exact h.outside (by decide)

theorem StoragePath.ne_runtimeFile {p : Bytes} (h : StoragePath p) : p ≠ runtimeFile := by
  rintro rfl
  exact h.outside (by decide)

/-! ### The disk and the requests -/

/-- The disk stores the files that have a version here, and has these versions on
record. -/
structure Inventory (versions : StrMap Int32) (disk : Disk) : Prop where
  saved : ∃ entries, Words entries ∧ disk.versionText = versionLines entries ∧
    savedVersions entries = versions
  files : ∀ p, p ≠ versionFilePath → (p ∈ disk.files ↔ p ∈ versions)
  paths : ∀ p ∈ versions, StoragePath p

namespace Inventory

variable {versions : StrMap Int32} {disk : Disk}

theorem versionText_store (disk : Disk) (text : Bytes) :
    (disk.store versionFilePath text).versionText = text := by
  simp [Disk.versionText, Disk.store]

theorem versionText_store_other (disk : Disk) {name : Bytes} (hname : name ≠ versionFilePath)
    (data : Bytes) : (disk.store name data).versionText = disk.versionText := by
  simp [Disk.versionText, Disk.store, Std.ExtTreeMap.getElem?_insert, hname]

theorem versionText_discard_other (disk : Disk) {name : Bytes} (hname : name ≠ versionFilePath) :
    (disk.discard name).versionText = disk.versionText := by
  simp [Disk.versionText, Disk.discard, Std.ExtTreeMap.getElem?_erase, hname]

/-- A file is stored under a version. -/
theorem stored (h : Inventory versions disk) {p : Bytes} (hp : StoragePath p) (data : Bytes)
    (version : Int32) :
    Inventory (versions.insert p version) ((disk.store p data).setFileVersion p version) := by
  obtain ⟨entries, hwords, htext, hsaved⟩ := h.saved
  obtain ⟨entries', hwords', htext', hsaved'⟩ :=
    FileManager.setFileVersion_words hwords hp.word version
  refine ⟨⟨entries', hwords', ?_, by rw [hsaved', hsaved]⟩, fun q hq => ?_, fun q hq => ?_⟩
  · rw [Disk.setFileVersion, versionText_store,
      versionText_store_other disk hp.ne_versionFilePath, htext, htext']
  · have hfiles := h.files q hq
    simp only [Disk.setFileVersion, Disk.store, Std.ExtTreeMap.mem_insert, hfiles]
    simp [Ne.symm hq]
  · rcases Std.ExtTreeMap.mem_insert.mp hq with heq | hmem
    · rwa [← Std.LawfulEqOrd.eq_of_compare heq]
    · exact h.paths q hmem

/-- A file is deleted, or there was none. -/
theorem deleted (h : Inventory versions disk) {p : Bytes} (hp : StoragePath p)
    (hresolve : disk.resolvePath p = p) (hremove : disk.removeError p = none) :
    ∃ after, disk.deleteFileAndVersion p = .ok after ∧ Inventory (versions.erase p) after ∧
      after.resolvePath = disk.resolvePath ∧ after.openOutput = disk.openOutput ∧
      after.removeError = disk.removeError := by
  rw [Disk.deleteFileAndVersion, hresolve, hremove]
  dsimp only
  by_cases hmem : p ∈ disk.files
  · rw [if_pos hmem]
    obtain ⟨entries, hwords, htext, hsaved⟩ := h.saved
    obtain ⟨entries', hwords', htext', hsaved'⟩ := FileManager.dropFileVersion_words hwords p
    refine ⟨_, rfl, ⟨⟨entries', hwords', ?_, by rw [hsaved', hsaved]⟩, fun q hq => ?_,
      fun q hq => ?_⟩, rfl, rfl, rfl⟩
    · rw [versionText_store, versionText_discard_other disk hp.ne_versionFilePath, htext, htext']
    · have hfiles := h.files q hq
      simp only [Disk.store, Disk.discard, Std.ExtTreeMap.mem_insert, Std.ExtTreeMap.mem_erase,
        hfiles]
      simp [Ne.symm hq]
    · exact h.paths q (Std.ExtTreeMap.mem_erase.mp hq).2
  · rw [if_neg hmem]
    -- without a file there is no version either
    have hsame : versions.erase p = versions := by
      have hnone : p ∉ versions := fun hv => hmem ((h.files p hp.ne_versionFilePath).mpr hv)
      refine Std.ExtTreeMap.ext_getElem? fun q => ?_
      rw [Std.ExtTreeMap.getElem?_erase]
      split
      · rename_i heq
        rw [← Std.LawfulEqOrd.eq_of_compare heq, Std.ExtTreeMap.getElem?_eq_none hnone]
      · rfl
    rw [hsame]
    exact ⟨disk, rfl, h, rfl, rfl, rfl⟩

/-- **What the scan lists**: the files directly below the root, with their versions. -/
theorem getElem?_listing (h : Inventory versions disk) (p : Bytes) :
    disk.getFileVersionMap[p]? = if TopLevel p then versions[p]? else none := by
  obtain ⟨entries, hwords, htext, rfl⟩ := h.saved
  rw [Disk.getFileVersionMap, Std.ExtTreeMap.getElem?_filterMap', htext,
    FileManager.savedFilesVersion_versionLines hwords]
  by_cases htop : TopLevel p
  · have hne : p ≠ versionFilePath := by
      rintro rfl
      exact htop (by decide)
    have hfiles := h.files p hne
    rw [if_pos htop]
    cases hp : (savedVersions entries)[p]? with
    | none =>
      have hnone : p ∉ disk.files := by
        rw [hfiles]
        exact no_entry_iff.mp hp
      rw [Std.ExtTreeMap.getElem?_eq_none hnone]
      rfl
    | some version =>
      have hmem : p ∈ savedVersions entries := mem_of_entry hp
      obtain ⟨data, hdata⟩ := mem_iff_exists_entry.mp (hfiles.mpr hmem)
      rw [hdata, Option.bind_some, if_pos ⟨htop, (h.paths p hmem).ne_runtimeFile⟩]
      rfl
  · rw [if_neg htop]
    cases disk.files[p]? with
    | none => rfl
    | some data => exact if_neg fun hand => htop hand.1

theorem listing_eq_iff (h : Inventory versions disk) :
    disk.getFileVersionMap = versions ↔ ∀ p ∈ versions, TopLevel p := by
  constructor
  · intro heq p hp
    by_contra hnested
    have hlisted := h.getElem?_listing p
    rw [heq, if_neg hnested] at hlisted
    exact no_entry_iff.mp hlisted hp
  · intro htop
    refine Std.ExtTreeMap.ext_getElem? fun p => ?_
    rw [h.getElem?_listing]
    split
    · rfl
    · rename_i hnested
      exact (Std.ExtTreeMap.getElem?_eq_none (mt (htop p) hnested)).symm

end Inventory

/-! ### The requests -/

/-- What the operating system decides is as before. -/
def SameSystem (disk disk' : Disk) : Prop :=
  disk'.resolvePath = disk.resolvePath ∧ disk'.openOutput = disk.openOutput ∧
    disk'.removeError = disk.removeError

/-- An answer that is sent and reads nothing. -/
def SendsOnly (answer : ProtoM Unit) : Prop :=
  ∀ s : Proto, ∃ s', answer.run s = (.done (), s') ∧ s'.inp = s.inp

theorem sendsOnly_response (isAck : Bool) : SendsOnly (response isAck) :=
  fun s => ⟨_, response_run isAck s, rfl⟩

theorem sendsOnly_responseVersion (isAck : Bool) (version : Int32) :
    SendsOnly (responseVersion isAck version) :=
  fun s => ⟨_, sendFrame_fits (fits_ack_version isAck _) _ _ s, rfl⟩

/-- An upload that arrives whole is stored. -/
theorem storeUpload_stored (node : DataNode) {path : Bytes} (version : Int32)
    (hopen : node.disk.openOutput (node.disk.resolvePath path) = .opened) {answer : ProtoM Unit}
    (hanswer : SendsOnly answer) {data rest : Bytes} (hsize : data.length ≤ fileTransferMaxSize)
    {s : Proto} (hinp : s.inp = pushU64 data.length ++ data ++ rest) :
    ∃ s', (storeUpload node path version answer).run s
        = (.done (node.stored path version data), s') ∧ s'.inp = rest := by
  set t : Proto := s.framed (ackFrame true s.nextSendSeq) with ht
  have hread := receiveStoredFile_blob hopen (s := t) hsize hinp
  obtain ⟨s', hrun, hrest⟩ := hanswer { t with inp := rest }
  refine ⟨s', ?_, hrest⟩
  rw [storeUpload, bind_done (response_run true s), finishStore, bind_done hread]
  dsimp only
  rw [if_pos rfl, bind_done hrun]
  rfl

section Dispatch

variable {versions : StrMap Int32} {node : DataNode}

/-- The CREATE and UPDATE branches. -/
theorem upload_inventory (h : Inventory versions node.disk) {r : StoreRequest}
    (hresolve : node.disk.resolvePath r.path = r.path) (hpath : StoragePath r.path)
    (hdelete : r.message.opcode ≠ .deleteFile) (hok : r.Succeeds node.disk)
    {answer : ProtoM Unit} (hanswer : SendsOnly answer)
    (hdispatch : requestDispatcher node r.message = storeUpload node r.path r.version answer)
    {s : Proto} {rest : Bytes} (hinp : s.inp = r.upload ++ rest) :
    ∃ node' s', (requestDispatcher node r.message).run s = (.done node', s') ∧ s'.inp = rest ∧
      Inventory (r.apply versions) node'.disk ∧ SameSystem node.disk node'.disk := by
  rw [StoreRequest.Succeeds, if_neg hdelete] at hok
  rw [StoreRequest.upload, if_neg hdelete] at hinp
  obtain ⟨s', hrun, hrest⟩ := storeUpload_stored node r.version (hresolve ▸ hok.1) hanswer hok.2 hinp
  refine ⟨node.stored r.path r.version r.fileData, s', ?_, hrest, ?_, rfl, rfl, rfl⟩
  · rw [hdispatch, hrun]
  rw [StoreRequest.apply, if_neg hdelete, DataNode.stored, hresolve]
  exact h.stored hpath r.fileData r.version

/-- **One request.** -/
theorem requestDispatcher_inventory (h : Inventory versions node.disk) {r : StoreRequest}
    (hresolve : node.disk.resolvePath r.path = r.path) (hpath : StoragePath r.path)
    (hok : r.Succeeds node.disk) {s : Proto} {rest : Bytes} (hinp : s.inp = r.upload ++ rest) :
    ∃ node' s', (requestDispatcher node r.message).run s = (.done node', s') ∧ s'.inp = rest ∧
      Inventory (r.apply versions) node'.disk ∧ SameSystem node.disk node'.disk := by
  rcases r.changes with hop | hop | hop
  · have hdispatch : requestDispatcher node r.message
        = storeUpload node r.path r.version (response true) := by
      simp only [requestDispatcher, hop]
      rfl
    exact upload_inventory h hresolve hpath (by rw [hop]; decide) hok (sendsOnly_response true)
      hdispatch hinp
  · have hdispatch : requestDispatcher node r.message
        = storeUpload node r.path r.version (responseVersion true r.version) := by
      simp only [requestDispatcher, hop]
      rfl
    exact upload_inventory h hresolve hpath (by rw [hop]; decide) hok
      (sendsOnly_responseVersion true r.version) hdispatch hinp
  · rw [StoreRequest.Succeeds, if_pos hop] at hok
    rw [StoreRequest.upload, if_pos hop] at hinp
    obtain ⟨after, hafter, hinv, hsystem⟩ := h.deleted hpath hresolve hok
    have hdispatch : requestDispatcher node r.message
        = answering { node with disk := after } (response true) := by
      have hdelete : node.disk.deleteFileAndVersion (r.message.getString .filePath) = .ok after :=
        hafter
      simp only [requestDispatcher, hop, hdelete]
      rfl
    obtain ⟨s', hrun, hrest⟩ := sendsOnly_response true s
    refine ⟨{ node with disk := after }, s', ?_, hrest.trans hinp, ?_, hsystem⟩
    · rw [hdispatch, answering, bind_done hrun]
      rfl
    · rw [StoreRequest.apply, if_pos hop]
      exact hinv

/-- **A sequence of requests.** -/
theorem dispatchAll_inventory {requests : List StoreRequest} (h : Inventory versions node.disk)
    (hresolve : ∀ p, StoragePath p → node.disk.resolvePath p = p)
    (hpaths : ∀ r ∈ requests, StoragePath r.path)
    (hok : ∀ r ∈ requests, r.Succeeds node.disk) {s : Proto}
    (hinp : s.inp = requests.flatMap StoreRequest.upload) :
    ∃ node' s', (dispatchAll requests node).run s = (.done node', s') ∧
      Inventory (requests.foldl StoreRequest.apply versions) node'.disk := by
  induction requests generalizing versions node s with
  | nil => exact ⟨node, s, rfl, h⟩
  | cons r requests ih =>
    have hr : StoragePath r.path := hpaths r List.mem_cons_self
    obtain ⟨node₁, s₁, hrun, hrest, hinv, hsystem⟩ := requestDispatcher_inventory h
      (hresolve _ hr) hr (hok r List.mem_cons_self) hinp
    have hok₁ : ∀ r' ∈ requests, r'.Succeeds node₁.disk := by
      intro r' hr'
      have := hok r' (List.mem_cons_of_mem _ hr')
      rwa [StoreRequest.Succeeds, ← hsystem.2.1, ← hsystem.2.2] at this
    obtain ⟨node', s', hruns, hinv'⟩ := ih hinv (fun p hp => by rw [hsystem.1, hresolve p hp])
      (fun r' hr' => hpaths r' (List.mem_cons_of_mem _ hr')) hok₁ hrest
    exact ⟨node', s', by rw [dispatchAll, bind_done hrun, hruns], hinv'⟩

end Dispatch

/-- A datanode that stores nothing. -/
def DataNode.Fresh (node : DataNode) : Prop :=
  node.disk.versionText = [] ∧ ∀ p ∈ node.disk.files, p = versionFilePath

/-- **When the answer to `SYNC_STATUS` is exact.**  For every sequence of requests
with proper paths and successful transfers, on a datanode that stores nothing yet:
all of them are served, the files that are stored afterwards are those of the
requests, and the versions that the datanode reports are theirs exactly when every
path that is stored lies directly below the storage root. -/
theorem inventory_reply_iff (node : DataNode) (hfresh : node.Fresh)
    (hresolve : ∀ p, StoragePath p → node.disk.resolvePath p = p)
    (requests : List StoreRequest) (hpaths : ∀ r ∈ requests, StoragePath r.path)
    (hok : ∀ r ∈ requests, r.Succeeds node.disk) (s : Proto)
    (hinp : s.inp = requests.flatMap StoreRequest.upload) :
    ∃ node' s', (dispatchAll requests node).run s = (.done node', s') ∧
      (∀ p, p ≠ versionFilePath → (p ∈ node'.disk.files ↔ p ∈ currentVersions requests)) ∧
      (node'.disk.getFileVersionMap = currentVersions requests ↔
        ∀ p ∈ currentVersions requests, TopLevel p) := by
  have hempty : Inventory ∅ node.disk := by
    refine ⟨⟨[], by simp [Words], hfresh.1, rfl⟩, fun p hp => ?_, by simp⟩
    refine iff_of_false (fun hmem => hp (hfresh.2 p hmem)) (by simp)
  obtain ⟨node', s', hrun, hinv⟩ := dispatchAll_inventory hempty hresolve hpaths hok hinp
  exact ⟨node', s', hrun, hinv.files, hinv.listing_eq_iff⟩

/-- A request that creates a file. -/
def createRequest (path : Bytes) (version : UInt32) (fileData : Bytes) : StoreRequest :=
  ⟨{ opcode := .createFile,
     fields := [fieldString .filePath path, fieldUint32 .fileVersion version] }, fileData, .inl rfl⟩

/-- A datanode with an empty disk. -/
def freshNode : DataNode := { peer := { kind := .dataNode, processName := [110] }, disk := {} }

/-- Two files in the storage root. -/
theorem inventory_reply_two :
    let requests := [createRequest [97] 1 [7], createRequest [98] 5 []]
    let s : Proto := { inp := requests.flatMap StoreRequest.upload }
    ∃ node' s', (dispatchAll requests freshNode).run s = (.done node', s') ∧
      node'.disk.getFileVersionMap = currentVersions requests ∧
      (currentVersions requests)[([98] : Bytes)]? = some 5 := by
  intro requests s
  have hpaths : ∀ r ∈ requests, StoragePath r.path := by
    intro r hr
    simp only [requests, List.mem_cons, List.not_mem_nil, or_false] at hr
    rcases hr with rfl | rfl <;> exact ⟨by decide, by decide, by decide⟩
  have hok : ∀ r ∈ requests, r.Succeeds freshNode.disk := by
    intro r hr
    simp only [requests, List.mem_cons, List.not_mem_nil, or_false] at hr
    rcases hr with rfl | rfl <;> exact ⟨rfl, by decide⟩
  have htop : ∀ p ∈ currentVersions requests, TopLevel p := by
    intro p hp
    have hp' : p ∈ ((∅ : StrMap Int32).insert [97] 1).insert [98] 5 := hp
    simp only [Std.ExtTreeMap.mem_insert, Std.LawfulEqCmp.compare_eq_iff_eq] at hp'
    rcases hp' with rfl | rfl | hp'
    · decide
    · decide
    · simp at hp'
  obtain ⟨node', s', hrun, -, hiff⟩ := inventory_reply_iff freshNode ⟨rfl, by simp [freshNode]⟩
    (fun _ _ => rfl) requests hpaths hok s rfl
  exact ⟨node', s', hrun, hiff.mpr htop, by decide⟩

/-- **A file in a directory is stored and not listed.** -/
theorem nested_path_unlisted :
    let r := createRequest [100, 0x2f, 102] 3 [7]
    StoragePath r.path ∧ r.Succeeds freshNode.disk ∧
      ∃ node' s', (dispatchAll [r] freshNode).run { inp := r.upload } = (.done node', s') ∧
        node'.disk.files[r.path]? = some [7] ∧ (currentVersions [r])[r.path]? = some 3 ∧
        node'.disk.getFileVersionMap[r.path]? = none := by
  intro r
  obtain ⟨s', hrun, -⟩ : ∃ s', (storeUpload freshNode r.path r.version (response true)).run
        { inp := r.upload } = (.done (freshNode.stored r.path r.version [7]), s') ∧ s'.inp = [] :=
    storeUpload_stored freshNode r.version rfl (sendsOnly_response true) (by decide) rfl
  refine ⟨⟨by decide, by decide, by decide⟩, ⟨rfl, by decide⟩,
    freshNode.stored r.path r.version [7], s', bind_done hrun, ?_⟩
  decide +kernel

end Squid
