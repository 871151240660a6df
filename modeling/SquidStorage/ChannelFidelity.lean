/-
What goes in at one end of a connection comes out at the other.

A script is a sequence of frames and file transfers.  The sender runs it on a
channel that takes each write in parts, the receiver reads the same sequence from
pieces that are cut anywhere; neither cut matters.  (A read that finds nothing
blocks until something has arrived, so however the two ends interleave, the
receiver sees the bytes in some pieces.)

* `send_run`, `receive_run` — one item;
* `channel_fidelity` — every script arrives as it was sent, each frame with its
  index as its number, and nothing is left over.
-/
import SquidStorage.Channel

open BigEndian

namespace Squid

/-! ### Scripts -/

/-- Where the bytes of a file transfer come from. -/
inductive Source where
  | memory (data : Bytes)
  | stored (path : Bytes)
deriving DecidableEq, Repr

/-- Where the bytes of a file transfer go. -/
inductive Target where
  | memory
  | stored (path : Bytes)
deriving DecidableEq, Repr

/-- One item of a script: a frame of the formatter, or a file transfer. -/
inductive Item where
  | message (opcode : Opcode) (flags : UInt8) (fields : List BinaryField)
  | blob (source : Source) (target : Target)
deriving DecidableEq, Repr

/-- What the receiver gets for an item. -/
inductive Received where
  | message (msg : Message)
  | blob (data : Bytes)
  | failed
deriving DecidableEq, Repr

def Source.data (sender : Disk) : Source → Option Bytes
  | .memory data => some data
  | .stored path => sender.files[sender.resolvePath path]?

def Source.send (sender : Disk) : Source → StreamM Bool
  | .memory data => StreamM.sendFile data
  | .stored path => StreamM.sendStoredFile sender path

/-- The bytes of a transfer that has arrived, and the disk after it. -/
def Target.receive (disk : Disk) : Target → StreamM (Received × Disk)
  | .memory => do
    match ← StreamM.receiveFile with
    | none => pure (.failed, disk)
    | some data => pure (.blob data, disk)
  | .stored path => do
    let (received, disk) ← StreamM.receiveStoredFile disk path
    if received then pure (.blob (disk.files[disk.resolvePath path]?.getD []), disk)
    else pure (.failed, disk)

namespace Item

def send (sender : Disk) : Item → StreamM Unit
  | .message opcode flags fields => StreamM.sendFrame (buildFrame opcode flags fields)
  | .blob source _ => do
    let _ ← source.send sender
    pure ()

def receive (disk : Disk) : Item → StreamM (Received × Disk)
  | .message .. => do
    let msg ← StreamM.receiveAndParse
    pure (.message msg, disk)
  | .blob _ target => target.receive disk

/-- The formatter builds the message; the file is there, is not too large, and
the receiver can open the file it goes to. -/
def Sendable (sender receiver : Disk) : Item → Prop
  | .message opcode flags fields => ∃ frame, buildFrame opcode flags fields = .ok frame
  | .blob source target =>
    (∃ data, source.data sender = some data ∧ data.length ≤ fileTransferMaxSize) ∧
    ∀ path, target = .stored path → receiver.openOutput (receiver.resolvePath path) = .opened

/-- How many frames an item is. -/
def frames : Item → ℕ
  | .message .. => 1
  | .blob .. => 0

/-- What an item should arrive as when `k` frames have gone before it. -/
def arrival (sender : Disk) (k : ℕ) : Item → Received
  | .message opcode flags fields =>
    .message { opcode := opcode, flags := flags, seq := UInt32.ofNat k, fields := fields }
  | .blob source _ => .blob ((source.data sender).getD [])

/-- The bytes of an item on the wire when `k` frames have gone before it. -/
def bytes (sender : Disk) (k : ℕ) : Item → Bytes
  | .message opcode flags fields => frameBytes opcode flags (UInt32.ofNat k) 0 fields
  | .blob source _ =>
    pushU64 ((source.data sender).getD []).length ++ (source.data sender).getD []

end Item

/-- Send the items one after the other. -/
def sendScript (sender : Disk) : List Item → StreamM Unit
  | [] => pure ()
  | item :: items => do
    item.send sender
    sendScript sender items

/-- Receive the items one after the other. -/
def receiveScript (disk : Disk) : List Item → StreamM (List Received × Disk)
  | [] => pure ([], disk)
  | item :: items => do
    let (received, disk) ← item.receive disk
    let (rest, disk) ← receiveScript disk items
    pure (received :: rest, disk)

/-- What a script should arrive as, from frame number `k` on. -/
def arrivals (sender : Disk) : ℕ → List Item → List Received
  | _, [] => []
  | k, item :: items => item.arrival sender k :: arrivals sender (k + item.frames) items

/-- The bytes of a script, from frame number `k` on. -/
def scriptBytes (sender : Disk) : ℕ → List Item → Bytes
  | _, [] => []
  | k, item :: items => item.bytes sender k ++ scriptBytes sender (k + item.frames) items

/-! ### One item -/

/-- The number after frame `k` is that of frame `k + 1`, also where it wraps. -/
theorem ofNat_succ_eq (k : ℕ) : UInt32.ofNat k + 1 = UInt32.ofNat (k + 1) := by
  rw [UInt32.ofNat_add]
  rfl

section Item

variable {sender receiver : Disk} {item : Item} {e : Endpoint} {k : ℕ}

theorem Source.send_run {source : Source} {data : Bytes} (hdata : source.data sender = some data)
    (hsize : data.length ≤ fileTransferMaxSize) (e : Endpoint) :
    ∃ e', (source.send sender).run e = (.done true, e') ∧ Cut e' (e.whole.sentBlob data) := by
  cases source with
  | memory data' =>
    obtain rfl := Option.some.inj hdata
    exact (StreamM.refines_sendFile data').run_done (cut_whole e) (sendFile_sized hsize _)
  | stored path =>
    refine (StreamM.refines_sendStoredFile sender path).run_done (cut_whole e) ?_
    rw [sendStoredFile, show sender.files[sender.resolvePath path]? = some data from hdata]
    exact sendFile_sized hsize _

/-- An item goes out as its bytes. -/
theorem Item.send_run (hitem : item.Sendable sender receiver)
    (hseq : e.proto.nextSendSeq = UInt32.ofNat k) :
    ∃ e', (item.send sender).run e = (.done (), e') ∧
      e'.written.flatten = e.written.flatten ++ item.bytes sender k ∧
      e'.proto.nextSendSeq = UInt32.ofNat (k + item.frames) := by
  cases item with
  | message opcode flags fields =>
    have hfit : Fits fields := (buildFrame_eq_ok_iff opcode flags fields 0).mp hitem
    obtain ⟨e', hrun, hcut⟩ := (StreamM.refines_sendFrame
      (buildFrame opcode flags fields)).run_done (cut_whole e) (sendFrame_fits hfit opcode flags _)
    refine ⟨e', hrun, ?_, ?_⟩
    · rw [← hcut.wire_out]
      simp [Proto.framed, Endpoint.whole, Sent.bytes, Item.bytes, hseq]
    · rw [← hcut.nextSendSeq, Item.frames, ← ofNat_succ_eq, ← hseq]
      rfl
  | blob source target =>
    obtain ⟨⟨data, hdata, hsize⟩, -⟩ := hitem
    obtain ⟨e', hrun, hcut⟩ := source.send_run hdata hsize e
    refine ⟨e', StreamM.bind_done hrun, ?_, ?_⟩
    · rw [← hcut.wire_out]
      simp [Proto.sentBlob, Endpoint.whole, Sent.bytes, Item.bytes, hdata]
    · rw [← hcut.nextSendSeq]
      exact hseq

/-- The receiver is at frame number `k`, with nothing out of order. -/
structure Expects (e : Endpoint) (k : ℕ) : Prop where
  seq : e.proto.expectedRecvSeq = UInt32.ofNat k
  buffer : e.proto.reorderBuffer = ∅

theorem Target.receive_run {target : Target} {disk : Disk} {data rest : Bytes}
    (hopen : ∀ path, target = .stored path → disk.openOutput (disk.resolvePath path) = .opened)
    (hsize : data.length ≤ fileTransferMaxSize) (hk : Expects e k)
    (hinp : e.arrivals.flatten = pushU64 data.length ++ data ++ rest) :
    ∃ e' disk', (target.receive disk).run e = (.done (.blob data, disk'), e') ∧
      e'.arrivals.flatten = rest ∧ Expects e' k ∧
      disk'.resolvePath = disk.resolvePath ∧ disk'.openOutput = disk.openOutput := by
  cases target with
  | memory =>
    obtain ⟨e', hrun, hcut⟩ := StreamM.refines_receiveFile.run_done (cut_whole e)
      (receiveFile_blob hsize hinp)
    refine ⟨e', disk, StreamM.bind_done hrun, hcut.inp.symm, ⟨?_, ?_⟩, rfl, rfl⟩
    · rw [← hcut.expectedRecvSeq]
      exact hk.seq
    · rw [← hcut.reorderBuffer]
      exact hk.buffer
  | stored path =>
    obtain ⟨e', hrun, hcut⟩ := (StreamM.refines_receiveStoredFile disk path).run_done (cut_whole e)
      (receiveStoredFile_blob (hopen path rfl) hsize hinp)
    refine ⟨e', disk.store (disk.resolvePath path) data, ?_, hcut.inp.symm, ⟨?_, ?_⟩, rfl, rfl⟩
    · refine (StreamM.bind_done hrun).trans ?_
      simp only [Disk.store, Std.ExtTreeMap.getElem?_insert_self, Option.getD_some]
      rfl
    · rw [← hcut.expectedRecvSeq]
      exact hk.seq
    · rw [← hcut.reorderBuffer]
      exact hk.buffer

/-- The bytes of an item come in as the item. -/
theorem Item.receive_run {disk : Disk} (hitem : item.Sendable sender disk) (hk : Expects e k)
    {rest : Bytes} (hinp : e.arrivals.flatten = item.bytes sender k ++ rest) :
    ∃ e' disk', (item.receive disk).run e = (.done (item.arrival sender k, disk'), e') ∧
      e'.arrivals.flatten = rest ∧ Expects e' (k + item.frames) ∧
      disk'.resolvePath = disk.resolvePath ∧ disk'.openOutput = disk.openOutput := by
  cases item with
  | message opcode flags fields =>
    have hfit : Fits fields := (buildFrame_eq_ok_iff opcode flags fields 0).mp hitem
    have hinp' : e.whole.inp = frameBytes opcode flags e.whole.expectedRecvSeq 0 fields ++ rest := by
      rw [show e.whole.expectedRecvSeq = UInt32.ofNat k from hk.seq]
      exact hinp
    obtain ⟨e', hrun, hcut⟩ := StreamM.refines_receiveAndParse.run_done (cut_whole e)
      (receiveAndParse_frame hfit hk.buffer hinp')
    refine ⟨e', disk, (StreamM.bind_done hrun).trans ?_, hcut.inp.symm, ⟨?_, ?_⟩, rfl, rfl⟩
    · rw [show e.whole.expectedRecvSeq = UInt32.ofNat k from hk.seq]
      rfl
    · rw [← hcut.expectedRecvSeq, Item.frames, ← ofNat_succ_eq, ← hk.seq]
      rfl
    · rw [← hcut.reorderBuffer]
      exact hk.buffer
  | blob source target =>
    obtain ⟨⟨data, hdata, hsize⟩, hopen⟩ := hitem
    rw [Item.bytes, hdata, Option.getD_some] at hinp
    rw [Item.arrival, hdata, Option.getD_some]
    exact target.receive_run hopen hsize hk hinp

end Item

/-! ### Whole scripts -/

theorem sendScript_run {sender receiver : Disk} {script : List Item}
    (hscript : ∀ item ∈ script, item.Sendable sender receiver) {k : ℕ} (e : Endpoint)
    (hseq : e.proto.nextSendSeq = UInt32.ofNat k) :
    ∃ e', (sendScript sender script).run e = (.done (), e') ∧
      e'.written.flatten = e.written.flatten ++ scriptBytes sender k script := by
  induction script generalizing e k with
  | nil => exact ⟨e, rfl, (List.append_nil _).symm⟩
  | cons item items ih =>
    obtain ⟨e₁, hrun₁, hwritten₁, hseq₁⟩ :=
      Item.send_run (hscript item List.mem_cons_self) hseq
    obtain ⟨e₂, hrun₂, hwritten₂⟩ :=
      ih (fun item hitem => hscript item (List.mem_cons_of_mem _ hitem)) e₁ hseq₁
    refine ⟨e₂, (StreamM.bind_done hrun₁).trans hrun₂, ?_⟩
    rw [hwritten₂, hwritten₁, scriptBytes, List.append_assoc]

theorem receiveScript_run {sender disk : Disk} {script : List Item}
    (hscript : ∀ item ∈ script, item.Sendable sender disk) {k : ℕ} (e : Endpoint)
    (hk : Expects e k) (hinp : e.arrivals.flatten = scriptBytes sender k script) :
    ∃ e' disk', (receiveScript disk script).run e = (.done (arrivals sender k script, disk'), e') ∧
      e'.arrivals.flatten = [] := by
  induction script generalizing e k disk with
  | nil => exact ⟨e, disk, rfl, hinp⟩
  | cons item items ih =>
    obtain ⟨e₁, disk₁, hrun₁, hinp₁, hk₁, hresolve, hopen⟩ :=
      Item.receive_run (hscript item List.mem_cons_self) hk hinp
    -- what the receiver can open does not change with what it stores
    have hscript₁ : ∀ item ∈ items, item.Sendable sender disk₁ := by
      intro item hitem
      have h := hscript item (List.mem_cons_of_mem _ hitem)
      cases item with
      | message opcode flags fields => exact h
      | blob source target =>
        refine ⟨h.1, fun path hpath => ?_⟩
        rw [hresolve, hopen]
        exact h.2 path hpath
    obtain ⟨e₂, disk₂, hrun₂, hinp₂⟩ := ih hscript₁ e₁ hk₁ hinp₁
    exact ⟨e₂, disk₂, (StreamM.bind_done hrun₁).trans (StreamM.bind_done hrun₂), hinp₂⟩

/-- **Every script arrives as it was sent.**  One fresh end sends the items in
order, with every write taken in parts of any size; another fresh end receives
them from the same bytes cut into any pieces.  Then the sender finishes, and the
receiver gets every message with its opcode, flags and fields and, as its number,
its index among the frames (modulo `2 ^ 32`), every file with its bytes, all in
order, and no byte is left over. -/
theorem channel_fidelity {sender receiver : Disk} {script : List Item}
    (hscript : ∀ item ∈ script, item.Sendable sender receiver) (quotas : ℕ → ℕ) :
    ∃ s : Endpoint, (sendScript sender script).run { quotas := quotas } = (.done (), s) ∧
      ∀ (pieces : List Bytes) (quotas' : ℕ → ℕ), pieces.flatten = s.written.flatten →
        ∃ (r : Endpoint) (disk : Disk),
          (receiveScript receiver script).run { arrivals := pieces, quotas := quotas' }
            = (.done (arrivals sender 0 script, disk), r) ∧
          r.arrivals.flatten = [] := by
  obtain ⟨s, hsend, hwritten⟩ := sendScript_run (k := 0) hscript { quotas := quotas } rfl
  refine ⟨s, hsend, fun pieces quotas' hpieces => ?_⟩
  have hinp : pieces.flatten = scriptBytes sender 0 script := by
    rw [hpieces, hwritten]
    rfl
  obtain ⟨r, disk, hrun, hrest⟩ := receiveScript_run (k := 0) hscript
    { arrivals := pieces, quotas := quotas' } ⟨rfl, rfl⟩ hinp
  exact ⟨r, disk, hrun, hrest⟩

/-- A node with the one file `a`. -/
def oneFile : Disk := { files := (∅ : StrMap Bytes).insert [97] [1, 2, 3] }

/-- A heartbeat, the file `a` stored as `b`, and two bytes from memory to memory. -/
def sampleScript : List Item :=
  [.message .heartbeat 0 [], .blob (.stored [97]) (.stored [98]), .blob (.memory [7, 8]) .memory]

theorem sample_sendable : ∀ item ∈ sampleScript, item.Sendable oneFile {} := by
  intro item hitem
  simp only [sampleScript, List.mem_cons, List.not_mem_nil, or_false] at hitem
  rcases hitem with rfl | rfl | rfl
  · exact ⟨_, rfl⟩
  · exact ⟨⟨[1, 2, 3], by simp [Source.data, oneFile], by decide⟩, fun _ _ => rfl⟩
  · exact ⟨⟨[7, 8], rfl, by decide⟩, fun _ _ => rfl⟩

theorem channel_fidelity_sample :
    (∀ item ∈ sampleScript, item.Sendable oneFile {}) ∧
    ∃ s : Endpoint, (sendScript oneFile sampleScript).run { quotas := fun _ => 0 } = (.done (), s) ∧
      ∀ (pieces : List Bytes) (quotas' : ℕ → ℕ), pieces.flatten = s.written.flatten →
        ∃ (r : Endpoint) (disk : Disk),
          (receiveScript {} sampleScript).run { arrivals := pieces, quotas := quotas' }
            = (.done ([.message { opcode := .heartbeat, seq := 0 }, .blob [1, 2, 3], .blob [7, 8]],
                disk), r) ∧
          r.arrivals.flatten = [] :=
  ⟨sample_sendable, channel_fidelity sample_sendable fun _ => 0⟩

end Squid
