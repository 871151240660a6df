/-
The cluster config file.

`ClusterConfig::fromFile` reads lines: it trims them, skips blank lines and full-line
comments, follows the section headers, and takes a `key = value` line apart.  A comment after
the value is cut off at the *last* place where a semicolon follows a space, and then at the
last place where a hash does.  What a comment has before that stays in the value: `stoi` does
not mind, but the port of a server is looked for after the last colon.

* `Parser.line_keyValue` — a `key = value` line in any layout, down to what is left of its
  comment;
* `readEntry_eq_iff` — when a server line is read back;
* `fromFile_render_iff` — a rendered config is read back exactly if no comment of a server
  leaves a colon behind; `comment_drops_server` — a comment that makes a server disappear;
* `fromFile_render_of_harmless` — comments without a colon, or without a second marker;
* `Document.config_ofConfig` — every config can be written.
-/
import SquidStorage.FileVersions
import SquidStorage.Handshake
import SquidStorage.TrimmedText

open BigEndian TextStream TrimmedText

namespace Squid

namespace ConfigFile

/-! ### The parser -/

structure ServerEntry where
  name : Bytes
  ip : Bytes
  port : Int32
deriving DecidableEq, Repr

structure ClusterConfig where
  servers : List ServerEntry := []
  replicationFactor : Int32 := 2
  heartbeatIntervalMs : Int32 := 500
  heartbeatTimeoutMs : Int32 := 1500
  reconnectAttempts : Int32 := 3
  reconnectDelayMs : Int32 := 500
  promotionProbeAttempts : Int32 := 3
  promotionProbeDelayMs : Int32 := 200
deriving DecidableEq, Repr

/-- The keys of the replication section. -/
inductive Setting where
  | replicationFactor
  | heartbeatIntervalMs
  | heartbeatTimeoutMs
  | reconnectAttempts
  | reconnectDelayMs
  | promotionProbeAttempts
  | promotionProbeDelayMs
deriving DecidableEq, Repr

namespace Setting

def key : Setting → Bytes
  | replicationFactor =>
    ascii ['r', 'e', 'p', 'l', 'i', 'c', 'a', 't', 'i', 'o', 'n', '_', 'f', 'a', 'c', 't', 'o',
      'r']
  | heartbeatIntervalMs =>
    ascii ['h', 'e', 'a', 'r', 't', 'b', 'e', 'a', 't', '_', 'i', 'n', 't', 'e', 'r', 'v', 'a',
      'l', '_', 'm', 's']
  | heartbeatTimeoutMs =>
    ascii ['h', 'e', 'a', 'r', 't', 'b', 'e', 'a', 't', '_', 't', 'i', 'm', 'e', 'o', 'u', 't',
      '_', 'm', 's']
  | reconnectAttempts =>
    ascii ['r', 'e', 'c', 'o', 'n', 'n', 'e', 'c', 't', '_', 'a', 't', 't', 'e', 'm', 'p', 't',
      's']
  | reconnectDelayMs =>
    ascii ['r', 'e', 'c', 'o', 'n', 'n', 'e', 'c', 't', '_', 'd', 'e', 'l', 'a', 'y', '_', 'm',
      's']
  | promotionProbeAttempts =>
    ascii ['p', 'r', 'o', 'm', 'o', 't', 'i', 'o', 'n', '_', 'p', 'r', 'o', 'b', 'e', '_', 'a',
      't', 't', 'e', 'm', 'p', 't', 's']
  | promotionProbeDelayMs =>
    ascii ['p', 'r', 'o', 'm', 'o', 't', 'i', 'o', 'n', '_', 'p', 'r', 'o', 'b', 'e', '_', 'd',
      'e', 'l', 'a', 'y', '_', 'm', 's']

/-- The keys in the order in which the parser tries them. -/
def all : List Setting :=
  [replicationFactor, heartbeatIntervalMs, heartbeatTimeoutMs, reconnectAttempts,
    reconnectDelayMs, promotionProbeAttempts, promotionProbeDelayMs]

def ofKey (key : Bytes) : Option Setting := all.find? fun k => k.key = key

theorem ofKey_key (k : Setting) : ofKey k.key = some k := by
  cases k <;> decide

end Setting

/-- `parseInt(cfg.<key>)`. -/
def ClusterConfig.set (cfg : ClusterConfig) (k : Setting) (v : Int32) : ClusterConfig :=
  match k with
  | .replicationFactor => { cfg with replicationFactor := v }
  | .heartbeatIntervalMs => { cfg with heartbeatIntervalMs := v }
  | .heartbeatTimeoutMs => { cfg with heartbeatTimeoutMs := v }
  | .reconnectAttempts => { cfg with reconnectAttempts := v }
  | .reconnectDelayMs => { cfg with reconnectDelayMs := v }
  | .promotionProbeAttempts => { cfg with promotionProbeAttempts := v }
  | .promotionProbeDelayMs => { cfg with promotionProbeDelayMs := v }

def hashMark : UInt8 := 0x23

def semicolon : UInt8 := 0x3b

def colon : UInt8 := 0x3a

def equals : UInt8 := 0x3d

def openBracket : UInt8 := 0x5b

def closeBracket : UInt8 := 0x5d

/-- The two sections that the parser reads. -/
inductive Section where
  | servers
  | replication
deriving DecidableEq, Repr

def Section.name : Section → Bytes
  | servers => ascii ['s', 'e', 'r', 'v', 'e', 'r', 's']
  | replication => ascii ['r', 'e', 'p', 'l', 'i', 'c', 'a', 't', 'i', 'o', 'n']

/-- The loop over the markers ` ;` and ` #`. -/
def stripComments (value : Bytes) : Bytes :=
  cut isSpace space hashMark (cut isSpace space semicolon value)

/-- A line of the servers section: `ip:port`. -/
def parseServer (key value : Bytes) : Option ServerEntry :=
  match splitLast colon value with
  | none => none
  | some (ip, port) => (stoi port).map fun port => ⟨key, ip, port⟩

/-- What the parser has read so far. -/
structure Parser where
  currentSection : Bytes := []
  cfg : ClusterConfig := {}
deriving DecidableEq, Repr

/-- A key and its value, both trimmed, the value without its comment. -/
def Parser.keyValue (p : Parser) (key value : Bytes) : Parser :=
  if p.currentSection = Section.servers.name then
    match parseServer key value with
    | none => p
    | some e => { p with cfg := { p.cfg with servers := p.cfg.servers ++ [e] } }
  else if p.currentSection = Section.replication.name then
    match Setting.ofKey key, stoi value with
    | some k, some v => { p with cfg := p.cfg.set k v }
    | _, _ => p
  else p

/-- One round of the loop of `ClusterConfig::fromFile`. -/
def Parser.line (p : Parser) (raw : Bytes) : Parser :=
  let line := trim isSpace raw
  if line = [] ∨ line.head? = some hashMark ∨ line.head? = some semicolon then p
  else if line.head? = some openBracket ∧ line.getLast? = some closeBracket then
    { p with currentSection := (line.drop 1).dropLast }
  else if equals ∈ line then
    p.keyValue (trim isSpace (line.takeWhile (· ≠ equals)))
      (stripComments (trim isSpace ((line.dropWhile (· ≠ equals)).drop 1)))
  else p

/-- `ClusterConfig::fromFile` on the text of the file, `none` when it does not open. -/
def fromFile (path : String) : Option Bytes → Except String ClusterConfig
  | none => .error ("ClusterConfig: cannot open '" ++ path ++ "'")
  | some text => .ok ((getlines newline text).foldl Parser.line {}).cfg

/-! ### Rendered configs -/

/-- Blanks within a line. -/
structure Blanks where
  bytes : Bytes
  blank : ∀ b ∈ bytes, isSpace b = true
  inLine : newline ∉ bytes

def noBlanks : Blanks := ⟨[], by simp, by simp⟩

/-- Letters, digits, dots, underscores and hyphens. -/
def isNameChar (b : UInt8) : Bool :=
  (0x61 ≤ b && b ≤ 0x7a) || (0x41 ≤ b && b ≤ 0x5a) || isDigit b || b == 0x2e || b == 0x5f ||
    b == 0x2d

/-- A name or an ip. -/
structure Word where
  bytes : Bytes
  chars : ∀ b ∈ bytes, isNameChar b = true

/-- A comment after a value: a space, a semicolon or a hash, and any text. -/
structure InlineComment where
  hash : Bool
  text : Bytes
  inLine : newline ∉ text

def marker (hash : Bool) : UInt8 := if hash then hashMark else semicolon

def InlineComment.bytes (c : InlineComment) : Bytes := space :: marker c.hash :: c.text

/-- The blanks around the key and the value, and the comment. -/
structure Layout where
  before : Blanks
  afterKey : Blanks
  beforeValue : Blanks
  afterValue : Blanks
  comment : Option InlineComment

namespace Layout

def commentBytes (l : Layout) : Bytes := l.comment.elim [] InlineComment.bytes

def line (l : Layout) (key value : Bytes) : Bytes :=
  l.before.bytes ++ key ++ l.afterKey.bytes ++ equals ::
    (l.beforeValue.bytes ++ value ++ (l.afterValue.bytes ++ l.commentBytes))

/-- What the two cuts leave of the comment. -/
def left (l : Layout) : Bytes := stripComments (rtrim isSpace l.commentBytes)

end Layout

structure Server where
  name : Word
  ip : Word
  port : Int32

def Server.entry (s : Server) : ServerEntry := ⟨s.name.bytes, s.ip.bytes, s.port⟩

def Server.value (s : Server) : Bytes := s.ip.bytes ++ colon :: toStr s.port

inductive Line where
  | blank (blanks : Blanks)
  | comment (before : Blanks) (hash : Bool) (text : Bytes) (inLine : newline ∉ text)
  | header (before after : Blanks) (s : Section)
  | server (layout : Layout) (server : Server)
  | setting (layout : Layout) (key : Setting) (value : Int32)

def Line.bytes : Line → Bytes
  | blank blanks => blanks.bytes
  | comment before hash text _ =>
    before.bytes ++ marker hash :: text
  | header before after s =>
    before.bytes ++ openBracket :: (s.name ++ closeBracket :: after.bytes)
  | server layout s => layout.line s.name.bytes s.value
  | setting layout key value => layout.line key.key (toStr value)

/-- The section that the lines below belong to. -/
def Line.after (current : Option Section) : Line → Option Section
  | header _ _ s => some s
  | _ => current

/-- A server is below a header of its section, and a setting below one of its own. -/
def Line.Belongs (current : Option Section) : Line → Prop
  | server _ _ => current = some .servers
  | setting _ _ _ => current = some .replication
  | _ => True

def Placed : Option Section → List Line → Prop
  | _, [] => True
  | current, line :: lines => line.Belongs current ∧ Placed (line.after current) lines

/-- A rendered config.  The last line has no newline; it may be empty. -/
structure Document where
  lines : List Line
  last : Line
  placed : Placed none (lines ++ [last])

def Document.render (doc : Document) : Bytes :=
  doc.lines.flatMap (fun l => l.bytes ++ [newline]) ++ doc.last.bytes

/-- A config filled by one line after the other, `entry` being what a server line gives. -/
def Line.fill (entry : Layout → Server → Option ServerEntry) (cfg : ClusterConfig) :
    Line → ClusterConfig
  | server layout s => { cfg with servers := cfg.servers ++ (entry layout s).toList }
  | setting _ key value => cfg.set key value
  | _ => cfg

/-- The servers in the order of their lines, and the settings as they are written. -/
def Document.config (doc : Document) : ClusterConfig :=
  (doc.lines ++ [doc.last]).foldl (Line.fill fun _ s => some s.entry) {}

/-! ### Characters -/

theorem isSpace_of_isNameChar {b : UInt8} (h : isNameChar b = true) : isSpace b = false := by
  -- the blanks end at 32, below the hyphen
  by_contra hblank
  have hlow : b.toNat ≤ 32 := by
    simp only [isSpace, Bool.not_eq_false, Bool.or_eq_true, beq_iff_eq, Bool.and_eq_true,
      decide_eq_true_eq, UInt8.le_iff_toNat_le] at hblank
    rcases hblank with rfl | ⟨-, hle⟩
    · decide
    · exact hle.trans (by decide)
  simp only [isNameChar, isDigit, Bool.or_eq_true, beq_iff_eq, Bool.and_eq_true,
    decide_eq_true_eq, UInt8.le_iff_toNat_le] at h
  rcases h with ((((⟨hlo, -⟩ | ⟨hlo, -⟩) | ⟨hlo, -⟩) | rfl) | rfl) | rfl
  · exact absurd (hlo.trans hlow) (by decide)
  · exact absurd (hlo.trans hlow) (by decide)
  · exact absurd (hlo.trans hlow) (by decide)
  · exact absurd hlow (by decide)
  · exact absurd hlow (by decide)
  · exact absurd hlow (by decide)

theorem isNameChar_of_mem_toStr {v : Int32} {b : UInt8} (h : b ∈ toStr v) :
    isNameChar b = true := by
  have hdigit : ∀ {b : UInt8}, isDigit b = true → isNameChar b = true := by
    intro b hb
    simp [isNameChar, hb]
  rw [toStr] at h
  split at h
  · rcases List.mem_cons.mp h with rfl | hmem
    · decide
    · exact hdigit (isDigit_of_mem_decimal hmem)
  · exact hdigit (isDigit_of_mem_decimal h)

/-- A character that no name has is in no text made of names' characters. -/
theorem not_mem_of_isNameChar {w : Bytes} {c : UInt8} (hw : ∀ b ∈ w, isNameChar b = true)
    (hc : isNameChar c = false) : c ∉ w := by
  intro hmem
  rw [hw c hmem] at hc
  cases hc

theorem Setting.isNameChar_key (k : Setting) : ∀ b ∈ k.key, isNameChar b = true := by
  have hall : k.key.all isNameChar = true := by cases k <;> decide
  exact List.all_eq_true.mp hall

/-! ### A line with a key and a value -/

/-- The characters of a value. -/
def IsValue (value : Bytes) : Prop :=
  value ≠ [] ∧ ∀ b ∈ value, isNameChar b = true ∨ b = colon

theorem isValue_toStr (v : Int32) : IsValue (toStr v) := by
  refine ⟨?_, fun b hb => Or.inl (isNameChar_of_mem_toStr hb)⟩
  rw [toStr]
  split
  · exact List.cons_ne_nil _ _
  · exact decimal_ne_nil _

theorem Server.isValue_value (s : Server) : IsValue s.value := by
  refine ⟨by simp [Server.value], ?_⟩
  intro b hb
  rcases List.mem_append.mp hb with hip | hrest
  · exact Or.inl (s.ip.chars b hip)
  · rcases List.mem_cons.mp hrest with rfl | hport
    · exact Or.inr rfl
    · exact Or.inl (isNameChar_of_mem_toStr hport)

theorem IsValue.isSpace {value : Bytes} (h : IsValue value) : ∀ b ∈ value, isSpace b = false := by
  intro b hb
  rcases h.2 b hb with hname | rfl
  · exact isSpace_of_isNameChar hname
  · decide

theorem IsValue.not_mem {value : Bytes} {c : UInt8} (h : IsValue value)
    (hc : isNameChar c = false) (hcolon : c ≠ colon) : c ∉ value := by
  intro hmem
  rcases h.2 c hmem with hname | heq
  · rw [hname] at hc
    cases hc
  · exact hcolon heq

theorem Blanks.not_mem (bl : Blanks) {c : UInt8} (hc : isSpace c = false) : c ∉ bl.bytes := by
  intro hmem
  rw [bl.blank c hmem] at hc
  cases hc

theorem isSpace_marker (hash : Bool) : isSpace (marker hash) = false := by
  cases hash <;> decide

namespace Layout

variable (l : Layout)

theorem isComment_rtrim : IsComment isSpace space (rtrim isSpace l.commentBytes) := by
  cases hc : l.comment with
  | none =>
    left
    simp [commentBytes, hc]
  | some c =>
    right
    refine ⟨marker c.hash, rtrim isSpace c.text, ?_, isSpace_marker c.hash⟩
    simp only [commentBytes, hc, Option.elim_some, InlineComment.bytes]
    exact rtrim_append_cons (isSpace_marker c.hash) [space] c.text

/-- The value of a line as the parser trims it. -/
theorem trim_value {value : Bytes} (h : IsValue value) :
    trim isSpace (rtrim isSpace (l.beforeValue.bytes ++ value ++
        (l.afterValue.bytes ++ l.commentBytes)))
      = joined isSpace (value ++ l.afterValue.bytes) (rtrim isSpace l.commentBytes) := by
  rw [trim_rtrim_word l.beforeValue.blank h.1 h.isSpace]
  cases hc : l.comment with
  | none =>
    simp only [commentBytes, hc, Option.elim_none, List.append_nil, rtrim_nil]
    rw [rtrim_of_blank l.afterValue.blank, List.append_nil, joined, if_pos rfl,
      rtrim_append_blank h.isSpace l.afterValue.blank]
  | some c =>
    have hmark := isSpace_marker c.hash
    have hbytes : l.commentBytes = [space] ++ marker c.hash :: c.text := by
      simp [commentBytes, hc, InlineComment.bytes]
    rw [hbytes, rtrim_append_cons hmark, ← List.append_assoc, rtrim_append_cons hmark, joined,
      if_neg (by simp)]
    simp

theorem stripComments_joined {u C : Bytes} (hsemi : semicolon ∉ u) (hhash : hashMark ∉ u)
    (hC : IsComment isSpace space C) :
    stripComments (joined isSpace u C) = joined isSpace u (stripComments C) ∧
      IsComment isSpace space (stripComments C) := by
  obtain ⟨hfirst, hC'⟩ := cut_joined (by decide) (by decide) hsemi hC
  obtain ⟨hsecond, hC''⟩ := cut_joined (by decide) (by decide) hhash hC'
  rw [stripComments, hfirst, hsecond]
  exact ⟨rfl, hC''⟩

theorem isComment_left : IsComment isSpace space l.left :=
  (stripComments_joined (u := []) (by simp) (by simp) l.isComment_rtrim).2

/-- A line with a key and a value begins with a character of the key or the equals sign. -/
theorem head_line {key : Bytes} (hkey : ∀ b ∈ key, isNameChar b = true) {rest : Bytes} {c : UInt8}
    (h : (ltrim isSpace (l.before.bytes ++ key ++ l.afterKey.bytes) ++ equals :: rest).head?
      = some c) : isNameChar c = true ∨ c = equals := by
  have hspace : ∀ b ∈ key, isSpace b = false := fun b hb => isSpace_of_isNameChar (hkey b hb)
  by_cases hne : key = []
  · have hall : ∀ b ∈ l.before.bytes ++ key ++ l.afterKey.bytes, isSpace b = true := by
      simpa [hne, or_imp, forall_and] using ⟨l.before.blank, l.afterKey.blank⟩
    rw [ltrim, List.dropWhile_eq_nil_iff.mpr hall] at h
    exact Or.inr (Option.some.inj h).symm
  · rw [ltrim_append_word l.before.blank hne hspace] at h
    obtain ⟨k, ks, rfl⟩ := List.exists_cons_of_ne_nil hne
    rw [← Option.some.inj h]
    exact Or.inl (hkey k List.mem_cons_self)

/-- The ends of a line are trimmed around its first equals sign. -/
theorem trim_line (key value : Bytes) :
    trim isSpace (l.line key value)
      = ltrim isSpace (l.before.bytes ++ key ++ l.afterKey.bytes) ++ equals ::
        rtrim isSpace (l.beforeValue.bytes ++ value ++ (l.afterValue.bytes ++ l.commentBytes)) := by
  rw [trim, line, ltrim_append_cons (by decide), rtrim_append_cons (by decide)]

/-- The first equals sign of a line is the one between the key and the value. -/
theorem equals_not_mem_key {key : Bytes} (hkey : ∀ b ∈ key, isNameChar b = true) :
    equals ∉ ltrim isSpace (l.before.bytes ++ key ++ l.afterKey.bytes) := by
  intro hmem
  have hpre := ltrim_subset _ hmem
  rw [List.mem_append, List.mem_append] at hpre
  rcases hpre with (hbefore | hin) | hafter
  · exact l.before.not_mem (by decide) hbefore
  · exact not_mem_of_isNameChar hkey (by decide) hin
  · exact l.afterKey.not_mem (by decide) hafter

/-- So it is neither a header nor a comment. -/
theorem head_trim_line_ne {key value : Bytes} (hkey : ∀ b ∈ key, isNameChar b = true) {c : UInt8}
    (hc : isNameChar c = false) (hne : c ≠ equals) :
    (trim isSpace (l.line key value)).head? ≠ some c := by
  intro hhead
  rw [l.trim_line] at hhead
  rcases l.head_line hkey hhead with hname | heq
  · rw [hname] at hc
    cases hc
  · exact hne heq

end Layout

/-- **A line with a key and a value**, in any layout. -/
theorem Parser.line_keyValue (p : Parser) (l : Layout) {key value : Bytes}
    (hkey : ∀ b ∈ key, isNameChar b = true) (hvalue : IsValue value) :
    p.line (l.line key value)
      = p.keyValue key (joined isSpace (value ++ l.afterValue.bytes) l.left) := by
  have hspace : ∀ b ∈ key, isSpace b = false := fun b hb => isSpace_of_isNameChar (hkey b hb)
  have hsplit : ∀ R : Bytes, _ := fun R => takeWhile_append_stop (p := (· ≠ equals))
    (fun b hb => by simpa using fun heq : b = equals => l.equals_not_mem_key hkey (heq ▸ hb))
    (show ∀ b ∈ (equals :: R).head?, decide (b ≠ equals) = false by simp)
  obtain ⟨htake, hdrop⟩ := hsplit (rtrim isSpace
    (l.beforeValue.bytes ++ value ++ (l.afterValue.bytes ++ l.commentBytes)))
  have hstrip := (Layout.stripComments_joined (u := value ++ l.afterValue.bytes)
    (by simpa using ⟨hvalue.not_mem (by decide) (by decide), l.afterValue.not_mem (by decide)⟩)
    (by simpa using ⟨hvalue.not_mem (by decide) (by decide), l.afterValue.not_mem (by decide)⟩)
    l.isComment_rtrim).1
  simp only [Parser.line]
  rw [if_neg, if_neg, if_pos, l.trim_line, htake, hdrop, List.drop_one, List.tail_cons, trim_ltrim,
    trim_of_blanks l.before.blank hspace l.afterKey.blank, l.trim_value hvalue, hstrip]
  · rfl
  · rw [l.trim_line]
    simp
  · exact fun h => l.head_trim_line_ne hkey (by decide) (by decide) h.1
  · rintro (hnil | hhash | hsemi)
    · rw [l.trim_line] at hnil
      simp at hnil
    · exact l.head_trim_line_ne hkey (by decide) (by decide) hhash
    · exact l.head_trim_line_ne hkey (by decide) (by decide) hsemi

/-! ### Reading a value back -/

/-- What follows a value once its comment has been cut. -/
theorem joined_split {w : Bytes} (hw : ∀ b ∈ w, isSpace b = false) (after : Blanks) {C : Bytes}
    (hC : IsComment isSpace space C) :
    ∃ rest, joined isSpace (w ++ after.bytes) C = w ++ rest ∧ BlankStart rest ∧
      ∀ c, isSpace c = false → (c ∈ rest ↔ c ∈ C) := by
  rcases hC with rfl | ⟨m, t, rfl, hm⟩
  · refine ⟨[], ?_, by simp [BlankStart], by simp⟩
    rw [joined, if_pos rfl, rtrim_append_blank hw after.blank, List.append_nil]
  · refine ⟨after.bytes ++ space :: m :: t, ?_, ?_, ?_⟩
    · rw [joined, if_neg (List.cons_ne_nil _ _), List.append_assoc]
    · intro b hb
      cases hbytes : after.bytes with
      | nil =>
        rw [hbytes] at hb
        rw [← Option.some.inj hb]
        decide
      | cons x xs =>
        rw [hbytes] at hb
        rw [← Option.some.inj hb]
        exact after.blank x (by simp [hbytes])
    · intro c hc
      rw [List.mem_append, or_iff_right (after.not_mem hc)]

theorem stoi_toStr_append (v : Int32) {rest : Bytes} (hrest : BlankStart rest) :
    stoi (toStr v ++ rest) = some v := by
  have hdigit : ∀ b ∈ rest.head?, isDigit b = false := by
    intro b hb
    by_contra hdig
    have hspace := isSpace_of_isDigit (by simpa using hdig)
    rw [hrest b hb] at hspace
    cases hspace
  rw [stoi, extractInt32_toStr v hdigit]
  rfl

/-- What the parser reads in the line of a server. -/
def readEntry (l : Layout) (s : Server) : Option ServerEntry :=
  parseServer s.name.bytes (joined isSpace (s.value ++ l.afterValue.bytes) l.left)

/-- **A server is read back** exactly if its comment leaves no colon behind. -/
theorem readEntry_eq_iff (l : Layout) (s : Server) :
    readEntry l s = some s.entry ↔ colon ∉ l.left := by
  obtain ⟨rest, hjoined, hblank, hmem⟩ :=
    joined_split s.isValue_value.isSpace l.afterValue l.isComment_left
  have hvalue : s.value ++ rest = s.ip.bytes ++ colon :: (toStr s.port ++ rest) := by
    simp [Server.value]
  rw [readEntry, hjoined, hvalue, ← hmem colon (by decide)]
  constructor
  · intro h hcolon
    rw [parseServer] at h
    cases hsplit : splitLast colon (s.ip.bytes ++ colon :: (toStr s.port ++ rest)) with
    | none =>
      rw [hsplit] at h
      cases h
    | some parts =>
      obtain ⟨ip, port⟩ := parts
      rw [hsplit] at h
      obtain ⟨v, -, hentry⟩ := Option.map_eq_some_iff.mp h
      obtain ⟨heq, hport⟩ := eq_of_splitLast hsplit
      -- the ip is right, so the port begins at the first colon and has the other one
      have hip : ip = s.ip.bytes := congrArg ServerEntry.ip hentry
      rw [hip] at heq
      obtain rfl : toStr s.port ++ rest = port := by simpa using heq
      exact hport (List.mem_append_right _ hcolon)
  · intro hcolon
    have hport : colon ∉ toStr s.port ++ rest := by
      have hdigits : colon ∉ toStr s.port :=
        not_mem_of_isNameChar (fun b hb => isNameChar_of_mem_toStr hb) (by decide)
      simpa using ⟨hdigits, hcolon⟩
    rw [parseServer, splitLast_append hport]
    simp only [stoi_toStr_append s.port hblank]
    rfl

/-! ### The lines of a rendered config -/

theorem Parser.keyValue_servers (cfg : ClusterConfig) (key value : Bytes) :
    Parser.keyValue ⟨Section.servers.name, cfg⟩ key value
      = ⟨Section.servers.name,
        { cfg with servers := cfg.servers ++ (parseServer key value).toList }⟩ := by
  rw [Parser.keyValue, if_pos rfl]
  cases parseServer key value with
  | none => simp
  | some e => rfl

theorem Parser.keyValue_replication (cfg : ClusterConfig) (k : Setting) {value : Bytes} {v : Int32}
    (hv : stoi value = some v) :
    Parser.keyValue ⟨Section.replication.name, cfg⟩ k.key value
      = ⟨Section.replication.name, cfg.set k v⟩ := by
  have hsection : Section.replication.name ≠ Section.servers.name := by decide
  rw [Parser.keyValue, if_neg hsection, if_pos rfl, k.ofKey_key, hv]

def sectionName (current : Option Section) : Bytes := current.elim [] Section.name

/-- **One line** of a rendered config. -/
theorem Parser.line_bytes {current : Option Section} {line : Line} (cfg : ClusterConfig)
    (hline : line.Belongs current) :
    Parser.line ⟨sectionName current, cfg⟩ line.bytes
      = ⟨sectionName (line.after current), line.fill readEntry cfg⟩ := by
  cases line with
  | blank blanks =>
    have htrim : trim isSpace blanks.bytes = [] := by
      rw [trim, ltrim, List.dropWhile_eq_nil_iff.mpr blanks.blank, rtrim_nil]
    simp only [Parser.line, Line.bytes, htrim]
    rw [if_pos (Or.inl trivial)]
    rfl
  | comment before hash text _ =>
    have htrim := trim_append_cons before.blank (isSpace_marker hash) text
    simp only [Parser.line, Line.bytes, htrim]
    rw [if_pos (Or.inr (by cases hash <;> simp [marker]))]
    rfl
  | header before after s =>
    have htrim : trim isSpace
        (before.bytes ++ openBracket :: (s.name ++ closeBracket :: after.bytes))
        = openBracket :: (s.name ++ [closeBracket]) := by
      rw [trim_append_cons before.blank (by decide), rtrim_append_cons (by decide),
        rtrim_of_blank after.blank]
    simp only [Parser.line, Line.bytes, htrim]
    rw [if_neg (by cases s <;> decide), if_pos (by cases s <;> decide)]
    cases s <;> rfl
  | server l s =>
    obtain rfl : current = some .servers := hline
    rw [Line.bytes, Parser.line_keyValue _ l s.name.chars s.isValue_value]
    exact Parser.keyValue_servers cfg _ _
  | setting l k v =>
    obtain rfl : current = some .replication := hline
    obtain ⟨rest, hjoined, hblank, -⟩ :=
      joined_split (isValue_toStr v).isSpace l.afterValue l.isComment_left
    rw [Line.bytes, Parser.line_keyValue _ l k.isNameChar_key (isValue_toStr v), hjoined]
    exact Parser.keyValue_replication cfg k (stoi_toStr_append v hblank)

/-- **All lines** of a rendered config. -/
theorem Parser.foldl_line {current : Option Section} {lines : List Line} (cfg : ClusterConfig)
    (hplaced : Placed current lines) :
    ((lines.map Line.bytes).foldl Parser.line ⟨sectionName current, cfg⟩).cfg
      = lines.foldl (Line.fill readEntry) cfg := by
  induction lines generalizing current cfg with
  | nil => rfl
  | cons line lines ih =>
    rw [List.map_cons, List.foldl_cons, List.foldl_cons, Parser.line_bytes cfg hplaced.1]
    exact ih _ hplaced.2

theorem Layout.newline_not_mem_line (l : Layout) {key value : Bytes}
    (hkey : ∀ b ∈ key, isNameChar b = true) (hvalue : IsValue value) :
    newline ∉ l.line key value := by
  have hcomment : newline ∉ l.commentBytes := by
    cases hc : l.comment with
    | none => simp [commentBytes, hc]
    | some c =>
      have hmark : newline ≠ marker c.hash := by cases c.hash <;> decide
      have hspace : newline ≠ space := by decide
      simpa [commentBytes, hc, InlineComment.bytes] using ⟨hspace, hmark, c.inLine⟩
  have hequals : newline ≠ equals := by decide
  have hkey' : newline ∉ key := not_mem_of_isNameChar hkey (by decide)
  have hvalue' : newline ∉ value := hvalue.not_mem (by decide) (by decide)
  simp only [Layout.line, List.mem_append, List.mem_cons, not_or]
  exact ⟨⟨⟨l.before.inLine, hkey'⟩, l.afterKey.inLine⟩, hequals,
    ⟨l.beforeValue.inLine, hvalue'⟩, l.afterValue.inLine, hcomment⟩

theorem Line.newline_not_mem (line : Line) : newline ∉ line.bytes := by
  cases line with
  | blank blanks => exact blanks.inLine
  | comment before hash text inLine =>
    have hmark : newline ≠ marker hash := by cases hash <;> decide
    simpa [Line.bytes] using ⟨before.inLine, hmark, inLine⟩
  | header before after s =>
    have hname : newline ∉ s.name := by cases s <;> decide
    have hopen : newline ≠ openBracket := by decide
    have hclose : newline ≠ closeBracket := by decide
    simpa [Line.bytes] using ⟨before.inLine, hopen, hname, hclose, after.inLine⟩
  | server l s => exact l.newline_not_mem_line s.name.chars s.isValue_value
  | setting l k v => exact l.newline_not_mem_line k.isNameChar_key (isValue_toStr v)

/-- What the parser makes of a rendered config. -/
theorem fromFile_render (path : String) (doc : Document) :
    fromFile path (some doc.render)
      = .ok ((doc.lines ++ [doc.last]).foldl (Line.fill readEntry) {}) := by
  have hlines : ∀ last : Bytes, newline ∉ last → getlines newline
      (doc.lines.flatMap (fun l => l.bytes ++ [newline]) ++ last)
        = doc.lines.map Line.bytes ++ if last = [] then [] else [last] := fun last hlast =>
    getlines_flatMap_append Line.bytes doc.lines (fun l _ => l.newline_not_mem) hlast
  rw [fromFile, Document.render, hlines _ doc.last.newline_not_mem,
    ← Parser.foldl_line {} doc.placed, List.map_append, List.foldl_append, List.foldl_append]
  -- an empty last line is not read, but it would not change anything
  split
  · rename_i hempty
    rw [List.map_singleton, hempty]
    rfl
  · rfl

/-! ### What is read and what was written -/

/-- The servers that a line adds. -/
def Line.entries (entry : Layout → Server → Option ServerEntry) : Line → List ServerEntry
  | server layout s => (entry layout s).toList
  | _ => []

theorem servers_foldl_fill (entry : Layout → Server → Option ServerEntry) (lines : List Line)
    (cfg : ClusterConfig) :
    (lines.foldl (Line.fill entry) cfg).servers
      = cfg.servers ++ lines.flatMap (Line.entries entry) := by
  induction lines generalizing cfg with
  | nil => simp
  | cons line lines ih =>
    rw [List.foldl_cons, ih, List.flatMap_cons, ← List.append_assoc]
    congr 1
    cases line with
    | setting l k v => cases k <;> simp [Line.fill, Line.entries, ClusterConfig.set]
    | _ => simp [Line.fill, Line.entries]

/-- The settings of a config. -/
def ClusterConfig.settings (cfg : ClusterConfig) : ClusterConfig := { cfg with servers := [] }

/-- The settings do not depend on how the servers are read. -/
theorem settings_foldl_fill (entry₁ entry₂ : Layout → Server → Option ServerEntry)
    (lines : List Line) {cfg₁ cfg₂ : ClusterConfig} (h : cfg₁.settings = cfg₂.settings) :
    (lines.foldl (Line.fill entry₁) cfg₁).settings
      = (lines.foldl (Line.fill entry₂) cfg₂).settings := by
  induction lines generalizing cfg₁ cfg₂ with
  | nil => exact h
  | cons line lines ih =>
    rw [List.foldl_cons, List.foldl_cons]
    apply ih
    cases line with
    | setting l k v =>
      have hset : ∀ cfg : ClusterConfig, (cfg.set k v).settings = cfg.settings.set k v := by
        intro cfg
        cases k <;> rfl
      simp only [Line.fill, hset, h]
    | _ => exact h

theorem ClusterConfig.eq_iff (cfg₁ cfg₂ : ClusterConfig) :
    cfg₁ = cfg₂ ↔ cfg₁.servers = cfg₂.servers ∧ cfg₁.settings = cfg₂.settings := by
  constructor
  · rintro rfl
    exact ⟨rfl, rfl⟩
  · rintro ⟨hservers, hsettings⟩
    have h : ∀ cfg : ClusterConfig, cfg = { cfg.settings with servers := cfg.servers } :=
      fun _ => rfl
    rw [h cfg₁, h cfg₂, hservers, hsettings]

/-- Two concatenations of lists, the first ones nowhere longer, agree piece by piece. -/
theorem flatMap_eq_iff {α β : Type} {f g : α → List β}
    (hle : ∀ a, (f a).length ≤ (g a).length) (l : List α) :
    l.flatMap f = l.flatMap g ↔ ∀ a ∈ l, f a = g a := by
  refine ⟨?_, List.flatMap_congr⟩
  have hlength : ∀ l : List α, (l.flatMap f).length ≤ (l.flatMap g).length := by
    intro l
    induction l with
    | nil => simp
    | cons a l ih =>
      have := hle a
      simp only [List.flatMap_cons, List.length_append]
      omega
  induction l with
  | nil => simp
  | cons a l ih =>
    intro h
    simp only [List.flatMap_cons] at h
    have hsum := congrArg List.length h
    have hhead := hle a
    have htail := hlength l
    simp only [List.length_append] at hsum
    obtain ⟨hfirst, hrest⟩ := List.append_inj h (by omega)
    rw [List.forall_mem_cons]
    exact ⟨hfirst, ih hrest⟩

theorem foldl_fill_eq_iff (lines : List Line) :
    lines.foldl (Line.fill readEntry) {} = lines.foldl (Line.fill fun _ s => some s.entry) {} ↔
      ∀ l s, Line.server l s ∈ lines → colon ∉ l.left := by
  have hle : ∀ line : Line, (line.entries readEntry).length
      ≤ (line.entries fun _ s => some s.entry).length := by
    intro line
    cases line with
    | server l s => cases h : readEntry l s <;> simp [Line.entries, h]
    | _ => exact le_rfl
  rw [ClusterConfig.eq_iff, servers_foldl_fill, servers_foldl_fill, List.append_cancel_left_eq,
    flatMap_eq_iff hle, and_iff_left (settings_foldl_fill _ _ _ rfl)]
  constructor
  · intro h l s hmem
    have heq := h _ hmem
    rw [← readEntry_eq_iff l s]
    cases hread : readEntry l s with
    | none => simp [Line.entries, hread] at heq
    | some e => simpa [Line.entries, hread] using heq
  · intro h line hmem
    cases line with
    | server l s => rw [Line.entries, (readEntry_eq_iff l s).mpr (h l s hmem), Line.entries]
    | _ => rfl

/-- **Comments and layout**: a rendered config is read back exactly if no comment behind a
server leaves a colon. -/
theorem fromFile_render_iff (path : String) (doc : Document) :
    fromFile path (some doc.render) = .ok doc.config ↔
      ∀ l s, Line.server l s ∈ doc.lines ++ [doc.last] → colon ∉ l.left := by
  rw [fromFile_render, Except.ok.injEq, Document.config, foldl_fill_eq_iff]

/-- `s = 1:5 ; a:b ; c` in the servers section. -/
def colonInComment : Document where
  lines := [.header noBlanks noBlanks .servers]
  last := .server
    { before := noBlanks
      afterKey := ⟨[space], List.all_eq_true.mp rfl, by decide⟩
      beforeValue := ⟨[space], List.all_eq_true.mp rfl, by decide⟩
      afterValue := noBlanks
      comment := some ⟨false, [0x20, 0x61, 0x3a, 0x62, 0x20, 0x3b, 0x20, 0x63], by decide⟩ }
    ⟨⟨[0x73], List.all_eq_true.mp rfl⟩, ⟨[0x31], List.all_eq_true.mp rfl⟩, 5⟩
  placed := ⟨trivial, rfl, trivial⟩

/-- The second semicolon is where the comment is cut, and the port is looked for behind the
colon of the comment: the server disappears. -/
theorem comment_drops_server :
    colonInComment.config = { servers := [⟨[0x73], [0x31], 5⟩] } ∧
      fromFile "cluster.conf" (some colonInComment.render) = .ok {} := by
  exact ⟨by decide, rfl⟩

/-! ### Comments that do no harm -/

namespace Layout

variable {l : Layout}

/-- A comment without a colon. -/
theorem colon_not_mem_left (h : colon ∉ l.commentBytes) : colon ∉ l.left := by
  intro hmem
  exact h (rtrim_subset _ (cut_subset _ (cut_subset _ hmem)))

/-- A comment in which no marker comes again. -/
theorem left_eq_nil {c : InlineComment} (hc : l.comment = some c) (hsemi : semicolon ∉ c.text)
    (hhash : hashMark ∉ c.text) : l.left = [] := by
  have hrtrim : rtrim isSpace l.commentBytes = space :: marker c.hash :: rtrim isSpace c.text := by
    simp only [commentBytes, hc, Option.elim_some, InlineComment.bytes]
    exact rtrim_append_cons (isSpace_marker c.hash) [space] c.text
  have hsemi' : semicolon ∉ rtrim isSpace c.text := fun hmem => hsemi (rtrim_subset _ hmem)
  have hhash' : hashMark ∉ rtrim isSpace c.text := fun hmem => hhash (rtrim_subset _ hmem)
  rw [left, hrtrim, stripComments]
  cases c.hash with
  | false =>
    have hcut : cut isSpace space semicolon (space :: semicolon :: rtrim isSpace c.text) = [] :=
      cut_cons_cons (by decide) hsemi'
    exact congrArg (cut isSpace space hashMark) hcut
  | true =>
    have hkeep : semicolon ∉ space :: hashMark :: rtrim isSpace c.text := by
      have hspace : semicolon ≠ space := by decide
      have hmark : semicolon ≠ hashMark := by decide
      simpa using ⟨hspace, hmark, hsemi'⟩
    have hcut : cut isSpace space semicolon (space :: hashMark :: rtrim isSpace c.text)
        = space :: hashMark :: rtrim isSpace c.text := cut_of_not_mem hkeep
    exact (congrArg (cut isSpace space hashMark) hcut).trans
      (cut_cons_cons (by decide) hhash')

end Layout

/-- **Harmless comments**: without a colon, or without a second marker. -/
theorem fromFile_render_of_harmless (path : String) (doc : Document)
    (h : ∀ l s, Line.server l s ∈ doc.lines ++ [doc.last] → ∀ c ∈ l.comment,
      colon ∉ c.text ∨ semicolon ∉ c.text ∧ hashMark ∉ c.text) :
    fromFile path (some doc.render) = .ok doc.config := by
  rw [fromFile_render, Document.config, (foldl_fill_eq_iff _).mpr]
  intro l s hmem
  cases hc : l.comment with
  | none =>
    apply Layout.colon_not_mem_left
    simp [Layout.commentBytes, hc]
  | some c =>
    rcases h l s hmem c hc with hcolon | ⟨hsemi, hhash⟩
    · apply Layout.colon_not_mem_left
      have hspace : colon ≠ space := by decide
      have hmark : colon ≠ marker c.hash := by cases c.hash <;> decide
      simpa [Layout.commentBytes, hc, InlineComment.bytes] using ⟨hspace, hmark, hcolon⟩
    · rw [Layout.left_eq_nil hc hsemi hhash]
      simp

/-! ### Every config can be written -/

def ClusterConfig.get (cfg : ClusterConfig) : Setting → Int32
  | .replicationFactor => cfg.replicationFactor
  | .heartbeatIntervalMs => cfg.heartbeatIntervalMs
  | .heartbeatTimeoutMs => cfg.heartbeatTimeoutMs
  | .reconnectAttempts => cfg.reconnectAttempts
  | .reconnectDelayMs => cfg.reconnectDelayMs
  | .promotionProbeAttempts => cfg.promotionProbeAttempts
  | .promotionProbeDelayMs => cfg.promotionProbeDelayMs

theorem placed_append {current : Option Section} {lines rest : List Line}
    (hlines : ∀ line ∈ lines, line.Belongs current ∧ line.after current = current)
    (hrest : Placed current rest) : Placed current (lines ++ rest) := by
  induction lines with
  | nil => exact hrest
  | cons line lines ih =>
    obtain ⟨⟨hbelongs, hafter⟩, hlines⟩ := List.forall_mem_cons.mp hlines
    refine ⟨hbelongs, ?_⟩
    rw [hafter]
    exact ih hlines

/-- The servers and then all settings, each in a layout of its own. -/
def Document.ofConfig (servers : List (Layout × Server)) (layout : Setting → Layout)
    (cfg : ClusterConfig) : Document where
  lines := .header noBlanks noBlanks .servers :: (servers.map (fun s => .server s.1 s.2) ++
    .header noBlanks noBlanks .replication ::
      Setting.all.map fun k => .setting (layout k) k (cfg.get k))
  last := .blank noBlanks
  placed := by
    rw [List.cons_append, List.append_assoc]
    refine ⟨trivial, placed_append ?_ ⟨trivial, placed_append ?_ ⟨trivial, trivial⟩⟩⟩
    · intro line hline
      obtain ⟨s, -, rfl⟩ := List.mem_map.mp hline
      exact ⟨rfl, rfl⟩
    · intro line hline
      obtain ⟨k, -, rfl⟩ := List.mem_map.mp hline
      exact ⟨rfl, rfl⟩

/-- **Every config is written** by some document. -/
theorem Document.config_ofConfig (servers : List (Layout × Server)) (layout : Setting → Layout)
    (cfg : ClusterConfig) :
    (Document.ofConfig servers layout cfg).config
      = { cfg with servers := servers.map fun s => s.2.entry } := by
  have hservers : ∀ start : ClusterConfig,
      (servers.map fun s => Line.server s.1 s.2).foldl (Line.fill fun _ s => some s.entry) start
        = { start with servers := start.servers ++ servers.map fun s => s.2.entry } := by
    intro start
    induction servers generalizing start with
    | nil => simp
    | cons s servers ih =>
      rw [List.map_cons, List.foldl_cons, ih]
      simp [Line.fill]
  simp only [Document.config, Document.ofConfig]
  rw [List.foldl_concat, List.foldl_cons, List.foldl_append, hservers]
  rfl

end ConfigFile

end Squid
