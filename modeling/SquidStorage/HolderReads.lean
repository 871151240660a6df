/-
Reading a file from its holders.

`ReplicationManager::getFileFromDataNode` asks the live holders one after the other and
leaves its loop in four places: with the first holder that is current, at the end of a
list in which nobody ACKed, past a stale holder when others are left, and at a stale
holder that is the last one.

* `tryHolders_eq` — all of them together: the first holder that is current, if any;
* `staleness_guarded_read` — when the call returns true, and with which bytes;
* `getFileFromDataNode_eq` — the reads of `Replication.lean` are reads of this loop, for a
  path of which a datanode reports the version.
-/
import SquidStorage.ClientLink

open BigEndian TextStream

namespace Squid

/-- The version in the last message of a `readFile`. -/
def gotVersion (mex : Message) : Int32 := toInt32 (mex.getUint32 .fileVersion 0)

/-- The loop of `getFileFromDataNode`, on the last message of each `readFile` and the bytes
that have been received. -/
def tryHolders (expectedVersion : Int32) : List (Message × Bytes) → Option Bytes
  | [] => none
  | (mex, candidate) :: holders =>
    if !mex.isAck then tryHolders expectedVersion holders
    else if expectedVersion < 0 ∨ expectedVersion ≤ gotVersion mex then some candidate
    -- stale: the next holder is tried, if there is one
    else if holders ≠ [] then tryHolders expectedVersion holders
    else none

namespace ReplicationManager

/-- `ReplicationManager::getFileFromDataNode`.  `read` is what comes of asking a holder, and
`none` for a session that is not alive. -/
def readFromHolders (rm : ReplicationManager) (read : Bytes → SessionId → Option (Message × Bytes))
    (filePath : Bytes) : Option Bytes :=
  match rm.dataNodeReplicationMap[filePath]? with
  | none => none
  | some entries =>
    let holders := entries.toList.filterMap fun e => read e.1 e.2
    let expectedVersion := rm.persistedVersionMap[filePath]?.getD (-1)
    if holders = [] then none else tryHolders expectedVersion holders

end ReplicationManager

/-! ### The loop -/

/-- The holder ACKs, and is not behind the expected version. -/
def IsCurrent (expectedVersion : Int32) (reply : Message × Bytes) : Prop :=
  reply.1.isAck = true ∧ (expectedVersion < 0 ∨ expectedVersion ≤ gotVersion reply.1)

instance (expectedVersion : Int32) (reply : Message × Bytes) :
    Decidable (IsCurrent expectedVersion reply) := inferInstanceAs (Decidable (_ ∧ _))

/-- The bytes of a holder that is current. -/
def currentBytes (expectedVersion : Int32) (reply : Message × Bytes) : Option Bytes :=
  if IsCurrent expectedVersion reply then some reply.2 else none

/-- **The loop finds the first holder that is current.** -/
theorem tryHolders_eq (expectedVersion : Int32) (holders : List (Message × Bytes)) :
    tryHolders expectedVersion holders = holders.findSome? (currentBytes expectedVersion) := by
  induction holders with
  | nil => rfl
  | cons reply holders ih =>
    obtain ⟨mex, candidate⟩ := reply
    rw [tryHolders, List.findSome?_cons, currentBytes]
    by_cases hack : mex.isAck = true
    · by_cases hversion : expectedVersion < 0 ∨ expectedVersion ≤ gotVersion mex
      · rw [if_neg (by simp [hack]), if_pos hversion, if_pos ⟨hack, hversion⟩]
      · -- a stale holder: the last one ends the loop as an empty rest would
        have hlast : (if holders ≠ [] then tryHolders expectedVersion holders else none)
            = tryHolders expectedVersion holders := by
          split
          · rfl
          · rename_i hnil
            rw [not_not.mp hnil]
            rfl
        rw [if_neg (by simp [hack]), if_neg hversion, hlast, ih, if_neg fun h => hversion h.2]
    · rw [if_pos (by simpa using hack), ih, if_neg fun h => hack h.1]

namespace ReplicationManager

variable (rm : ReplicationManager) (read : Bytes → SessionId → Option (Message × Bytes))
  (filePath : Bytes)

theorem readFromHolders_eq :
    rm.readFromHolders read filePath
      = (rm.holders filePath).toList.findSome? fun e =>
          (read e.1 e.2).bind (currentBytes (rm.getKnownVersion filePath)) := by
  have hloop : ∀ l : List (Bytes × SessionId),
      tryHolders (rm.getKnownVersion filePath) (l.filterMap fun e => read e.1 e.2)
        = l.findSome? fun e =>
            (read e.1 e.2).bind (currentBytes (rm.getKnownVersion filePath)) := by
    intro l
    rw [tryHolders_eq, ← List.head?_filterMap, List.filterMap_filterMap, List.head?_filterMap]
  rw [readFromHolders, holders]
  cases rm.dataNodeReplicationMap[filePath]? with
  | none => exact hloop []
  | some entries =>
    rw [Option.getD_some, ← hloop]
    dsimp only
    split
    · rename_i hnil
      rw [hnil]
      rfl
    · rfl

/-- The holder ACKs with a version at least the persisted one, with any if there is none. -/
def UpToDate (reply : Message × Bytes) : Prop :=
  reply.1.isAck = true ∧
    ∀ v, rm.persistedVersionMap[filePath]? = some v → v ≤ gotVersion reply.1

variable {rm filePath}

/-- For a version that is not negative the two conditions are the same. -/
theorem currentBytes_eq_some_iff
    (hpersisted : ∀ v, rm.persistedVersionMap[filePath]? = some v → 0 ≤ v)
    (reply : Message × Bytes) (fileData : Bytes) :
    currentBytes (rm.getKnownVersion filePath) reply = some fileData
      ↔ rm.UpToDate filePath reply ∧ reply.2 = fileData := by
  have hcurrent : IsCurrent (rm.getKnownVersion filePath) reply ↔ rm.UpToDate filePath reply := by
    rw [IsCurrent, UpToDate, getKnownVersion]
    refine and_congr_right fun _ => ?_
    cases hv : rm.persistedVersionMap[filePath]? with
    | none => simp
    | some v =>
      have hpos : ¬ v < 0 := Int32.not_lt.mpr (hpersisted v hv)
      simp [hpos]
  rw [currentBytes, Option.ite_none_right_eq_some, hcurrent, Option.some.injEq]

variable {read}

/-- **Reads guarded by the version.**  The call returns true exactly when some live holder
ACKs with a version at least the persisted one, and the bytes are those of the first such
holder in the order of the map, whatever the others answer. -/
theorem staleness_guarded_read
    (hpersisted : ∀ v, rm.persistedVersionMap[filePath]? = some v → 0 ≤ v) :
    ((rm.readFromHolders read filePath).isSome = true
      ↔ ∃ n session reply, (rm.holders filePath)[n]? = some session ∧
        read n session = some reply ∧ rm.UpToDate filePath reply) ∧
    ∀ fileData, rm.readFromHolders read filePath = some fileData
      ↔ ∃ pre n session post reply, (rm.holders filePath).toList = pre ++ (n, session) :: post ∧
        read n session = some reply ∧ rm.UpToDate filePath reply ∧ reply.2 = fileData ∧
        ∀ e ∈ pre, ∀ other, read e.1 e.2 = some other → ¬ rm.UpToDate filePath other := by
  have hbytes := currentBytes_eq_some_iff hpersisted
  rw [readFromHolders_eq]
  refine ⟨?_, fun fileData => ?_⟩
  · rw [List.findSome?_isSome_iff]
    constructor
    · rintro ⟨⟨n, session⟩, he, hsome⟩
      obtain ⟨fileData, hdata⟩ := Option.isSome_iff_exists.mp hsome
      obtain ⟨reply, hread, hreply⟩ := Option.bind_eq_some_iff.mp hdata
      exact ⟨n, session, reply, Std.ExtTreeMap.mem_toList_iff_getElem?_eq_some.mp he, hread,
        ((hbytes reply fileData).mp hreply).1⟩
    · rintro ⟨n, session, reply, hn, hread, hdate⟩
      refine ⟨(n, session), Std.ExtTreeMap.mem_toList_iff_getElem?_eq_some.mpr hn, ?_⟩
      rw [hread, Option.bind_some, (hbytes reply reply.2).mpr ⟨hdate, rfl⟩]
      rfl
  · rw [List.findSome?_eq_some_iff]
    constructor
    · rintro ⟨pre, ⟨n, session⟩, post, hsplit, hdata, hpre⟩
      obtain ⟨reply, hread, hreply⟩ := Option.bind_eq_some_iff.mp hdata
      obtain ⟨hdate, hfile⟩ := (hbytes reply fileData).mp hreply
      refine ⟨pre, n, session, post, reply, hsplit, hread, hdate, hfile, ?_⟩
      intro e he other hother hnot
      have hnone := hpre e he
      rw [hother, Option.bind_some, (hbytes other other.2).mpr ⟨hnot, rfl⟩] at hnone
      simp at hnone
    · rintro ⟨pre, n, session, post, reply, hsplit, hread, hdate, hfile, hpre⟩
      refine ⟨pre, (n, session), post, hsplit, ?_, fun e he => ?_⟩
      · rw [hread, Option.bind_some]
        exact (hbytes reply fileData).mpr ⟨hdate, hfile⟩
      · rw [Option.bind_eq_none_iff]
        intro other hother
        by_contra hne
        obtain ⟨bytes, hsome⟩ := Option.ne_none_iff_exists'.mp hne
        exact hpre e he other hother ((hbytes other bytes).mp hsome).1

/-- A file of version 2 with five holders: a dead one, one that is stale, one that refuses,
one that is current, and one more that is stale. -/
theorem staleness_guarded_read_fourth :
    let holders : StrMap SessionId := (∅ : StrMap SessionId).insert [1] 1 |>.insert [2] 2
      |>.insert [3] 3 |>.insert [4] 4 |>.insert [5] 5
    let rm : ReplicationManager :=
      { replicationFactor := 3
        dataNodeReplicationMap := (∅ : StrMap (StrMap SessionId)).insert [97] holders
        persistedVersionMap := (∅ : StrMap Int32).insert [97] 2 }
    let read := fun (_ : Bytes) (session : SessionId) =>
      if session = 1 then none
      else if session = 3 then some ((Response.ack false).message, [])
      else if session = 4 then some ((Response.version true 2).message, [120])
      else some ((Response.version true 1).message, [121])
    rm.persistedVersionMap[([97] : Bytes)]? = some 2 ∧
      rm.readFromHolders read [97] = some [120] := by
  intro holders rm read
  have hversion : rm.persistedVersionMap[([97] : Bytes)]? = some 2 := by decide
  refine ⟨hversion, (staleness_guarded_read ?_).2 [120] |>.mpr ?_⟩
  · intro v hv
    obtain rfl := Option.some.inj (hversion.symm.trans hv)
    decide
  · refine ⟨[([1], 1), ([2], 2), ([3], 3)], [4], 4, [([5], 5)], _, by decide, rfl, ?_, rfl, ?_⟩
    · refine ⟨Response.isAck_version 2, fun v hv => ?_⟩
      obtain rfl := Option.some.inj (hversion.symm.trans hv)
      decide
    · rintro e he other hother ⟨hack, hdate⟩
      have hle := hdate 2 hversion
      simp only [List.mem_cons, List.not_mem_nil, or_false] at he
      rcases he with rfl | rfl | rfl
      · simp [read] at hother
      · obtain rfl := Option.some.inj hother
        exact absurd hle (by decide)
      · obtain rfl := Option.some.inj hother
        exact absurd hack (by decide)

end ReplicationManager

/-! ### Reads of the system -/

/-- The version that a datanode reports of a stored file: its version file has none for a path that
is not one word. -/
def reportedVersion (filePath : Bytes) (file : StoredFile) : Int32 :=
  if IsWord filePath then file.version else -1

namespace System

/-- What comes of `readFile` on a holder's session: a datanode answers from its disk. -/
def holderReply (sys : System) (answer : Bytes → SessionId → ReadAnswer) (filePath name : Bytes)
    (session : SessionId) : Option (Message × Bytes) :=
  match answer name session with
  | .dead => none
  | .nack => some ((Response.ack false).message, [])
  | .served =>
    match sys.nodes name filePath with
    | none => some ((Response.ack false).message, [])
    | some file =>
      some ((Response.version true (reportedVersion filePath file)).message, file.bytes)

/-- **The reads of the system are reads of the loop**, for paths that are words. -/
theorem getFileFromDataNode_eq (sys : System) (answer : Bytes → SessionId → ReadAnswer)
    {filePath : Bytes} (hpath : IsWord filePath) :
    sys.getFileFromDataNode answer filePath
      = sys.rm.readFromHolders (sys.holderReply answer filePath) filePath := by
  have hnack : ∀ expected, currentBytes expected ((Response.ack false).message, []) = none :=
    fun expected => if_neg fun h => absurd h.1 (by decide)
  rw [ReplicationManager.readFromHolders_eq, getFileFromDataNode]
  rw [← List.head?_filterMap, ← List.head?_filterMap, List.filterMap_filter]
  congr 1
  refine List.filterMap_congr fun e _ => ?_
  cases hanswer : answer e.1 e.2 with
  | dead => simp [holderReply, hanswer]
  | nack => simp [holderReply, hanswer, hnack]
  | served =>
    cases hfile : sys.nodes e.1 filePath with
    | none => simp [holderReply, hanswer, hfile, hnack]
    | some file =>
      simp [holderReply, hanswer, hfile, currentBytes, IsCurrent, Response.isAck_version,
        gotVersion, Response.getUint32_version, toInt32_toUint32, reportedVersion, hpath]

end System

end Squid
