import Mathlib
import Mikage.Framework.Exceptions
import Mikage.Lib.Run

/-!
# The packet stream of the GDB stub

The stub waits for one byte of the connection at a time until a `$` begins a packet, then for the
`#` behind the packet and the two digits of its checksum.

- `Connection.step`: the handler of a token, or of a packet, with the reads it makes.
- `packetsIn`: the packets of a stream of bytes, whatever the reads it arrives in.
- `Connection.Sound`: where the two agree. They do not where a packet's checksum is wrong, since the
  packet is executed all the same, nor where a read returns bytes behind a packet, since the stub
  looks for the next one in the socket only.
-/

namespace Mikage.GDB

abbrev Bytes := List UInt8

/-! ## Packets -/

def hexCharToInt (ch : UInt8) : Option UInt8 :=
  if 0x61 ≤ ch ∧ ch ≤ 0x66 then some (ch - 0x61 + 0xa)
  else if 0x41 ≤ ch ∧ ch ≤ 0x46 then some (ch - 0x41 + 0xa)
  else if 0x30 ≤ ch ∧ ch ≤ 0x39 then some (ch - 0x30)
  else none

def getChecksum (buffer : Bytes) : UInt8 := buffer.foldl (· + ·) 0

def expectedChecksum (high low : UInt8) : Option UInt8 := do
  let high ← hexCharToInt high
  let low ← hexCharToInt low
  pure (high <<< 4 ||| low)

/-- `$payload#cc`. -/
structure Packet where
  payload : Bytes
  high : UInt8
  low : UInt8
  deriving DecidableEq, Repr

def Packet.right (p : Packet) : Bool := expectedChecksum p.high p.low = some (getChecksum p.payload)

/-- Where a reader of the stream is: before a packet, in its payload, or before its checksum. -/
inductive Place where
  | idle
  | payload (read : Bytes)
  | checksum (read : Bytes)
  | low (read : Bytes) (high : UInt8)

/-- The packets of the rest of a stream. -/
def packetsFrom : Place → Bytes → List Packet
  | _, [] => []
  | .idle, b :: s => if b = 0x24 then packetsFrom (.payload []) s else packetsFrom .idle s
  | .payload p, b :: s =>
    if b = 0x23 then packetsFrom (.checksum p) s else packetsFrom (.payload (p ++ [b])) s
  | .checksum p, b :: s => packetsFrom (.low p b) s
  | .low p high, b :: s => { payload := p, high, low := b } :: packetsFrom .idle s

def packetsIn (stream : Bytes) : List Packet := packetsFrom .idle stream

/-- The commands of the packets whose checksum is right. -/
def commands (packets : List Packet) : List Bytes :=
  (packets.filter Packet.right).map Packet.payload

/-! ## The connection -/

/-- The rest of the stub, behind the packet stream. -/
structure Stub (σ : Type) where
  handlePacket : Bytes → σ → Except Exception (Option Bytes × σ)
  coreRunning : σ → Bool
  /-- The pause at a SIGINT, with the signal it reports. -/
  pause : σ → Except Exception (Bytes × σ)

inductive Answer where
  | ack
  | nack
  | packet (message : Bytes)
  deriving DecidableEq, Repr

inductive Phase where
  /-- Behind `SetupTokenReceivedHandler`. -/
  | token
  /-- Behind `SetupCommandLineReceivedHandler`. -/
  | commandLine
  deriving DecidableEq, Repr

structure Connection (σ : Type) where
  /-- What the next reads of the socket return. -/
  socket : List Bytes
  streambuf : Bytes
  phase : Phase
  state : σ
  /-- The commands executed. -/
  executed : List Bytes
  sent : List Answer

/-- A read of one byte. -/
def readByte : List Bytes → Option (UInt8 × List Bytes)
  | [] => none
  | [] :: socket => readByte socket
  | (b :: bytes) :: socket => some (b, bytes :: socket)

/-- The two digits of a checksum, from the buffer as far as it goes. `none` while there are not
enough. -/
def readChecksum (streambuf : Bytes) (socket : List Bytes) :
    Option (UInt8 × UInt8 × Bytes × List Bytes) :=
  match streambuf with
  | high :: low :: rest => some (high, low, rest, socket)
  | [high] => (readByte socket).map fun (low, socket) => (high, low, [], socket)
  | [] => do
    let (high, socket) ← readByte socket
    let (low, socket) ← readByte socket
    pure (high, low, [], socket)

/-- The bytes before the first `#` and behind it. -/
def getline : Bytes → Option (Bytes × Bytes)
  | [] => none
  | b :: s =>
    if b = 0x23 then some ([], s) else (getline s).map fun (line, rest) => (b :: line, rest)

/-! ## What the reads return -/

section Reads

variable {socket socket' : List Bytes} {s p line rest streambuf : Bytes} {b high low : UInt8}

theorem readByte_some (h : readByte socket = some (b, socket')) :
    socket.flatten = b :: socket'.flatten := by
  induction socket with
  | nil => cases h
  | cons bytes socket ih =>
    cases bytes with
    | nil => exact ih h
    | cons b' bytes =>
      cases h
      rfl

theorem readByte_none (h : readByte socket = none) : socket.flatten = [] := by
  induction socket with
  | nil => rfl
  | cons bytes socket ih =>
    cases bytes with
    | nil => exact ih h
    | cons b' bytes => cases h

theorem getline_some (h : getline s = some (line, rest)) :
    s = line ++ 0x23 :: rest ∧ 0x23 ∉ line := by
  induction s generalizing line with
  | nil => cases h
  | cons b s ih =>
    rw [getline] at h
    split at h
    next hb =>
      cases h
      exact ⟨by rw [hb]; rfl, by simp⟩
    next hb =>
      obtain ⟨⟨line', rest'⟩, hline, heq⟩ := Option.map_eq_some_iff.1 h
      cases heq
      obtain ⟨hs, hmem⟩ := ih hline
      exact ⟨by rw [hs]; rfl, by simp [hmem, Ne.symm hb]⟩

theorem getline_none (h : getline s = none) : 0x23 ∉ s := by
  induction s with
  | nil => simp
  | cons b s ih =>
    rw [getline] at h
    split at h
    next => cases h
    next hb => simp [ih (Option.map_eq_none_iff.1 h), Ne.symm hb]

theorem readChecksum_some (hrest : rest.length ≤ 2)
    (h : readChecksum rest socket = some (high, low, streambuf, socket')) :
    streambuf = [] ∧ rest ++ socket.flatten = high :: low :: socket'.flatten := by
  match rest with
  | [] =>
    obtain ⟨⟨high', socket₁⟩, hhigh, h⟩ := Option.bind_eq_some_iff.1 h
    obtain ⟨⟨low', socket₂⟩, hlow, h⟩ := Option.bind_eq_some_iff.1 h
    cases h
    exact ⟨rfl, by rw [List.nil_append, readByte_some hhigh, readByte_some hlow]⟩
  | [high'] =>
    obtain ⟨⟨low', socket₁⟩, hlow, h⟩ := Option.map_eq_some_iff.1 h
    cases h
    exact ⟨rfl, by rw [readByte_some hlow]; rfl⟩
  | [high', low'] =>
    cases h
    exact ⟨rfl, rfl⟩
  | _ :: _ :: _ :: _ => simp at hrest

theorem readChecksum_none (h : readChecksum rest socket = none) :
    packetsFrom (.checksum p) (rest ++ socket.flatten) = [] := by
  match rest with
  | [] =>
    cases hhigh : readByte socket with
    | none => rw [List.nil_append, readByte_none hhigh, packetsFrom]
    | some r =>
      obtain ⟨high, socket₁⟩ := r
      have hlow : readByte socket₁ = none := by
        cases hlow : readByte socket₁ with
        | none => rfl
        | some r => simp [readChecksum, hhigh, hlow] at h
      rw [List.nil_append, readByte_some hhigh, packetsFrom, readByte_none hlow, packetsFrom]
  | [high] =>
    have hlow : readByte socket = none := Option.map_eq_none_iff.1 h
    rw [List.cons_append, List.nil_append, packetsFrom, readByte_none hlow, packetsFrom]
  | _ :: _ :: _ => cases h

theorem packetsFrom_payload (h : 0x23 ∉ line) (p s : Bytes) :
    packetsFrom (.payload p) (line ++ 0x23 :: s) = packetsFrom (.checksum (p ++ line)) s := by
  induction line generalizing p with
  | nil => simp [packetsFrom]
  | cons b line ih =>
    have hb : b ≠ 0x23 := fun heq => h (by simp [heq])
    rw [List.cons_append, packetsFrom, if_neg hb, ih fun hmem => h (by simp [hmem])]
    simp

theorem packetsFrom_unended (h : 0x23 ∉ s) (p : Bytes) : packetsFrom (.payload p) s = [] := by
  induction s generalizing p with
  | nil => rfl
  | cons b s ih =>
    have hb : b ≠ 0x23 := fun heq => h (by simp [heq])
    rw [packetsFrom, if_neg hb]
    exact ih (fun hmem => h (by simp [hmem])) _

end Reads

namespace Connection

variable {σ : Type} (stub : Stub σ)

def tokenReceived (c : Connection σ) (token : UInt8) : Except Exception (Connection σ) :=
  if stub.coreRunning c.state ∧ token ≠ 3 then
    .error (.runtimeError
      "Should never receive anything other than SIGINT while emulator core is running!")
  else if token = 3 then
    if stub.coreRunning c.state then do
      let (message, state) ← stub.pause c.state
      pure { c with state, sent := c.sent ++ [.packet message] }
    else .error (.runtimeError "Should only receive SIGINT when running!")
  else if token = 0x24 then .ok { c with phase := .commandLine }
  else .ok c

def commandReceived (c : Connection σ) (command : Bytes) (high low : UInt8) :
    Except Exception (Connection σ) := do
  match expectedChecksum high low with
  | none => throw (.nullPointer "HexCharToInt")
  | some expected =>
    let answer := if expected ≠ getChecksum command then .nack else .ack
    let (reply, state) ← stub.handlePacket command c.state
    if reply.isSome ∧ command.head? = some 0x73 then throw (.runtimeError "abort")
    else
      pure { c with
        phase := .token
        state
        executed := c.executed ++ [command]
        sent := c.sent ++ answer :: (reply.map Answer.packet).toList }

/-- The next handler that runs, or `none` while the connection waits for more bytes. -/
def step (c : Connection σ) : Except Exception (Option (Connection σ)) :=
  match c.phase with
  | .token =>
    match readByte c.socket with
    | none => .ok none
    | some (token, socket) => some <$> tokenReceived stub { c with socket } token
  | .commandLine =>
    match getline c.streambuf with
    | none =>
      match c.socket with
      | [] => .ok none
      | bytes :: socket => .ok (some { c with socket, streambuf := c.streambuf ++ bytes })
    | some (command, rest) =>
      match readChecksum rest c.socket with
      | none => .ok none
      | some (high, low, streambuf, socket) =>
        some <$> commandReceived stub { c with socket, streambuf } command high low

def init (socket : List Bytes) (state : σ) : Connection σ :=
  { socket, streambuf := [], phase := .token, state, executed := [], sent := [] }

/-- The packets of the bytes that are still to come. -/
def pending (c : Connection σ) : List Packet :=
  packetsFrom (match c.phase with | .token => .idle | .commandLine => .payload [])
    (c.streambuf ++ c.socket.flatten)

/-- The acknowledgements among the answers. -/
def acknowledged (c : Connection σ) : List Bool :=
  c.sent.filterMap fun
    | .ack => some true
    | .nack => some false
    | .packet _ => none

/-- A token is one the stub expects, and a packet has a right checksum, ends what its last read
returned, and is handled without an exception. -/
def Sound (c : Connection σ) : Prop :=
  match c.phase with
  | .token => ∀ token socket, readByte c.socket = some (token, socket) →
      (stub.coreRunning c.state = true ↔ token = 3) ∧
        (token = 3 → ∃ r, stub.pause c.state = .ok r)
  | .commandLine => ∀ command rest, getline c.streambuf = some (command, rest) →
      rest.length ≤ 2 ∧ ∀ high low streambuf socket,
        readChecksum rest c.socket = some (high, low, streambuf, socket) →
          expectedChecksum high low = some (getChecksum command) ∧
            ∃ reply state, stub.handlePacket command c.state = .ok (reply, state) ∧
              ¬ (reply.isSome ∧ command.head? = some 0x73)

inductive Step (P : Connection σ → Prop) : Connection σ → Connection σ → Prop where
  | handler {c c' : Connection σ} : P c → c.step stub = .ok (some c') → Step P c c'
  /-- The emulator stops, goes on or reports a signal meanwhile. -/
  | emulator {c : Connection σ} (state : σ) (messages : List Bytes) :
      Step P c { c with state, sent := c.sent ++ messages.map Answer.packet }

/-- The packets answered so far and those to come are the packets of the stream. -/
structure Exact (stream : Bytes) (c : Connection σ) : Prop where
  executed : c.executed ++ commands c.pending = commands (packetsIn stream)
  acknowledged : c.acknowledged ++ c.pending.map Packet.right =
    (packetsIn stream).map Packet.right

/-! ## The run -/

variable {stub : Stub σ} {c c' : Connection σ} {stream : Bytes}

/-- Between packets nothing is buffered. -/
structure Kept (stream : Bytes) (c : Connection σ) : Prop extends Exact stream c where
  buffered : c.phase = .token → c.streambuf = []

theorem Kept.tokenReceived {token : UInt8} {socket : List Bytes} (h : Kept stream c)
    (hphase : c.phase = .token) (hread : readByte c.socket = some (token, socket))
    (hstep : tokenReceived stub { c with socket } token = .ok c') : Kept stream c' := by
  have hbuf := h.buffered hphase
  have hpending : c.pending = packetsFrom .idle (token :: socket.flatten) := by
    rw [pending, hphase, hbuf, readByte_some hread]
    rfl
  have hexec := h.executed
  have hack := h.acknowledged
  rw [hpending] at hexec hack
  rw [Connection.tokenReceived] at hstep
  split at hstep
  next => cases hstep
  next =>
    split at hstep
    next htoken =>
      rw [htoken] at hexec hack
      split at hstep
      next =>
        obtain ⟨r, -, hnext⟩ := bind_ok hstep
        cases hnext
        refine ⟨⟨?_, ?_⟩, fun _ => hbuf⟩
        · simpa [pending, hphase, hbuf, packetsFrom] using hexec
        · simpa [pending, hphase, hbuf, packetsFrom, Connection.acknowledged] using hack
      next => cases hstep
    next =>
      split at hstep
      next htoken =>
        rw [htoken] at hexec hack
        cases hstep
        refine ⟨⟨?_, ?_⟩, fun h => by cases h⟩
        · simpa [pending, hbuf, packetsFrom] using hexec
        · simpa [pending, hbuf, packetsFrom, Connection.acknowledged] using hack
      next htoken =>
        cases hstep
        refine ⟨⟨?_, ?_⟩, fun _ => hbuf⟩
        · simpa [pending, hphase, hbuf, packetsFrom, htoken] using hexec
        · simpa [pending, hphase, hbuf, packetsFrom, htoken, Connection.acknowledged] using hack

theorem Kept.chunk {bytes : Bytes} {socket : List Bytes} (h : Kept stream c)
    (hphase : c.phase = .commandLine) (hsocket : c.socket = bytes :: socket) :
    Kept stream { c with socket, streambuf := c.streambuf ++ bytes } := by
  have hpending :
      { c with socket, streambuf := c.streambuf ++ bytes }.pending = c.pending := by
    simp [pending, hphase, hsocket]
  refine ⟨⟨?_, ?_⟩, fun htoken => by cases hphase.symm.trans htoken⟩
  · rw [hpending]
    exact h.executed
  · rw [hpending]
    exact h.acknowledged

theorem Kept.commandReceived {command rest streambuf : Bytes} {high low : UInt8}
    {socket : List Bytes} (h : Kept stream c) (hphase : c.phase = .commandLine)
    (hline : getline c.streambuf = some (command, rest)) (hrest : rest.length ≤ 2)
    (hread : readChecksum rest c.socket = some (high, low, streambuf, socket))
    (hright : expectedChecksum high low = some (getChecksum command))
    (hstep : commandReceived stub { c with socket, streambuf } command high low = .ok c') :
    Kept stream c' := by
  obtain ⟨hbuf, hbytes⟩ := readChecksum_some hrest hread
  obtain ⟨hsplit, hmem⟩ := getline_some hline
  have hpacket : (Packet.mk command high low).right = true := decide_eq_true hright
  have hpending : c.pending =
      { payload := command, high, low } :: packetsFrom .idle socket.flatten := by
    rw [pending, hphase, hsplit, List.append_assoc, List.cons_append, hbytes,
      packetsFrom_payload hmem, packetsFrom, packetsFrom, List.nil_append]
  have hexec := h.executed
  have hack := h.acknowledged
  rw [hpending] at hexec hack
  rw [Connection.commandReceived, hright] at hstep
  cases hhandle : stub.handlePacket command c.state with
  | error e =>
    simp only [hhandle] at hstep
    cases hstep
  | ok r =>
    obtain ⟨reply, state⟩ := r
    simp only [hhandle, bind, Except.bind, ne_eq, not_true_eq_false, if_false] at hstep
    split at hstep
    next => cases hstep
    next =>
      cases hstep
      refine ⟨⟨?_, ?_⟩, fun _ => hbuf⟩
      · simpa [pending, hbuf, commands, hpacket] using hexec
      · cases reply with
        | none => simpa [pending, hbuf, hpacket, Connection.acknowledged] using hack
        | some message => simpa [pending, hbuf, hpacket, Connection.acknowledged] using hack

theorem step_token (h : c.phase = .token) :
    c.step stub = match readByte c.socket with
      | none => .ok none
      | some (token, socket) => some <$> tokenReceived stub { c with socket } token := by
  cases c
  cases h
  rfl

theorem step_commandLine (h : c.phase = .commandLine) :
    c.step stub = match getline c.streambuf with
      | none =>
        match c.socket with
        | [] => .ok none
        | bytes :: socket => .ok (some { c with socket, streambuf := c.streambuf ++ bytes })
      | some (command, rest) =>
        match readChecksum rest c.socket with
        | none => .ok none
        | some (high, low, streambuf, socket) =>
          some <$> commandReceived stub { c with socket, streambuf } command high low := by
  cases c
  cases h
  rfl

theorem Kept.step (h : Kept stream c) (hs : c.Sound stub) (hstep : c.step stub = .ok (some c')) :
    Kept stream c' := by
  cases hphase : c.phase with
  | token =>
    rw [step_token hphase] at hstep
    split at hstep
    next => cases hstep
    next token socket hread =>
      obtain ⟨c₁, htoken, hnext⟩ := map_ok hstep
      cases hnext
      exact h.tokenReceived hphase hread htoken
  | commandLine =>
    rw [step_commandLine hphase] at hstep
    simp only [Sound, hphase] at hs
    split at hstep
    next hline =>
      split at hstep
      next => cases hstep
      next bytes socket hsocket =>
        cases hstep
        exact h.chunk hphase hsocket
    next command rest hline =>
      obtain ⟨hrest, hs⟩ := hs command rest hline
      split at hstep
      next => cases hstep
      next high low streambuf socket hread =>
        obtain ⟨hright, -⟩ := hs high low streambuf socket hread
        obtain ⟨c₁, hcommand, hnext⟩ := map_ok hstep
        cases hnext
        exact h.commandReceived hphase hline hrest hread hright hcommand

theorem Kept.emulator (h : Kept stream c) (state : σ) (messages : List Bytes) :
    Kept stream { c with state, sent := c.sent ++ messages.map Answer.packet } := by
  have hnone : (messages.map Answer.packet).filterMap (fun
      | .ack => some true
      | .nack => some false
      | .packet _ => none) = ([] : List Bool) := by
    simp [List.filterMap_map]
  refine ⟨⟨h.executed, ?_⟩, h.buffered⟩
  have hack := h.acknowledged
  rw [Connection.acknowledged] at hack ⊢
  rw [List.filterMap_append, hnone, List.append_nil]
  exact hack

theorem Kept.next (h : Kept stream c) (hs : Step stub (Sound stub) c c') : Kept stream c' := by
  cases hs with
  | handler hsound hstep => exact h.step hsound hstep
  | emulator state messages => exact h.emulator state messages

/-- A connection that waits has no whole packet left. -/
theorem Kept.waiting (h : Kept stream c) (hstep : c.step stub = .ok none) : c.pending = [] := by
  cases hphase : c.phase with
  | token =>
    rw [step_token hphase] at hstep
    split at hstep
    next hread =>
      rw [pending, hphase, h.buffered hphase, readByte_none hread]
      rfl
    next token socket _ =>
      obtain ⟨c₁, -, hnext⟩ := map_ok hstep
      cases hnext
  | commandLine =>
    rw [step_commandLine hphase] at hstep
    split at hstep
    next hline =>
      split at hstep
      next hsocket =>
        rw [pending, hphase, hsocket, List.flatten_nil, List.append_nil]
        exact packetsFrom_unended (getline_none hline) []
      next => cases hstep
    next command rest hline =>
      split at hstep
      next hread =>
        obtain ⟨hsplit, hmem⟩ := getline_some hline
        rw [pending, hphase, hsplit, List.append_assoc, List.cons_append]
        exact (packetsFrom_payload hmem [] _).trans (readChecksum_none hread)
      next high low streambuf socket _ =>
        obtain ⟨c₁, -, hnext⟩ := map_ok hstep
        cases hnext

theorem Sound.step_ok (h : c.Sound stub) : ∃ next, c.step stub = .ok next := by
  cases hphase : c.phase with
  | token =>
    simp only [Sound, hphase] at h
    rw [step_token hphase]
    split
    next => exact ⟨_, rfl⟩
    next token socket hread =>
      obtain ⟨hrunning, hpause⟩ := h token socket hread
      rw [Connection.tokenReceived]
      by_cases htoken : token = 3
      · obtain ⟨r, hr⟩ := hpause htoken
        simp only [htoken, hrunning.2 htoken, ne_eq, not_true_eq_false, and_false, if_false,
          if_true, hr]
        exact ⟨_, rfl⟩
      · have hstopped : ¬ (stub.coreRunning c.state = true ∧ token ≠ 3) :=
          fun h => htoken (hrunning.1 h.1)
        dsimp only
        rw [if_neg hstopped, if_neg htoken]
        split
        · exact ⟨_, rfl⟩
        · exact ⟨_, rfl⟩
  | commandLine =>
    simp only [Sound, hphase] at h
    rw [step_commandLine hphase]
    split
    next =>
      split
      · exact ⟨_, rfl⟩
      · exact ⟨_, rfl⟩
    next command rest hline =>
      split
      next => exact ⟨_, rfl⟩
      next high low streambuf socket hread =>
        obtain ⟨hright, reply, state, hhandle, habort⟩ := (h command rest hline).2 _ _ _ _ hread
        rw [Connection.commandReceived, hright]
        simp only [hhandle, bind, Except.bind, if_neg habort]
        exact ⟨_, rfl⟩

/-- Through every run, whatever reads the stream arrives in and whatever the emulator does meanwhile,
the commands executed are those of the packets so far, each acknowledged, while every packet is right
and nothing is read behind it. Such a run goes on until the stream is used up. -/
theorem session_exact {socket : List Bytes} {state : σ}
    (h : Run.Reachable (fun c => c = init socket state) (Step stub (Sound stub)) c) :
    c.Exact socket.flatten ∧
      (c.Sound stub → ∃ next, c.step stub = .ok next) ∧
      (c.step stub = .ok none → c.executed = commands (packetsIn socket.flatten) ∧
        c.acknowledged = (packetsIn socket.flatten).map Packet.right) := by
  have hkept : Kept socket.flatten c := by
    refine h.invariant ?_ fun _ _ h hs => h.next hs
    intro c hc
    rw [hc]
    exact ⟨⟨rfl, rfl⟩, fun _ => rfl⟩
  refine ⟨hkept.toExact, Sound.step_ok, fun hstep => ?_⟩
  have hpending := hkept.waiting hstep
  have hexec := hkept.executed
  have hack := hkept.acknowledged
  rw [hpending] at hexec hack
  exact ⟨by simpa [commands] using hexec, by simpa using hack⟩

/-- A stub that answers nothing. -/
def silent : Stub Unit where
  handlePacket _ _ := .ok (none, ())
  coreRunning _ := false
  pause _ := .ok ([], ())

/-- The connection of `$a#61`, all of it in one read, in front of its three handlers. -/
def oneRight : List (Connection Unit) :=
  [init [[0x24, 0x61, 0x23, 0x36, 0x31]] (),
    { init [[0x61, 0x23, 0x36, 0x31]] () with phase := .commandLine },
    { init [] () with phase := .commandLine, streambuf := [0x61, 0x23, 0x36, 0x31] }]

theorem oneRight_sound : ∀ c ∈ oneRight, c.Sound silent := by
  intro c hc
  simp only [oneRight, List.mem_cons, List.not_mem_nil, or_false] at hc
  rcases hc with rfl | rfl | rfl
  · intro token socket h
    cases h
    exact ⟨by decide, fun h => absurd h (by decide)⟩
  · intro command rest h
    cases h
  · intro command rest h
    cases h
    refine ⟨by decide, fun high low streambuf socket h => ?_⟩
    cases h
    exact ⟨by decide, none, (), rfl, by decide⟩

theorem oneRight_reachable :
    Run.Reachable (fun c => c = init [[0x24, 0x61, 0x23, 0x36, 0x31]] ())
      (Step silent (Sound silent)) { init [] () with executed := [[0x61]], sent := [.ack] } :=
  .next (.next (.next (.start rfl)
    (.handler (oneRight_sound oneRight[0] (by simp [oneRight])) rfl))
    (.handler (oneRight_sound oneRight[1] (by simp [oneRight])) rfl))
    (.handler (oneRight_sound oneRight[2] (by simp [oneRight])) rfl)

theorem session_exact_oneRight :
    let c : Connection Unit := { init [] () with executed := [[0x61]], sent := [.ack] }
    c.Exact [0x24, 0x61, 0x23, 0x36, 0x31] ∧
      (c.Sound silent → ∃ next, c.step silent = .ok next) ∧
      (c.step silent = .ok none →
        c.executed = commands (packetsIn [0x24, 0x61, 0x23, 0x36, 0x31]) ∧
        c.acknowledged = (packetsIn [0x24, 0x61, 0x23, 0x36, 0x31]).map Packet.right) :=
  session_exact oneRight_reachable

/-- Up to `n` handlers, one after the other. -/
def run (stub : Stub σ) : Nat → Connection σ → Except Exception (Connection σ)
  | 0, c => .ok c
  | n + 1, c => do
    match ← c.step stub with
    | none => pure c
    | some c => run stub n c

theorem reachable_run {I : Connection σ → Prop} {n : Nat}
    (h : Run.Reachable I (Step stub fun _ => True) c) (hrun : run stub n c = .ok c') :
    Run.Reachable I (Step stub fun _ => True) c' := by
  induction n generalizing c with
  | zero =>
    cases hrun
    exact h
  | succ n ih =>
    rw [run] at hrun
    cases hstep : c.step stub with
    | error e =>
      rw [hstep] at hrun
      cases hrun
    | ok next =>
      rw [hstep] at hrun
      cases next with
      | none =>
        cases hrun
        exact h
      | some c₁ => exact ih (.next h (.handler trivial hstep)) hrun

/-- `$a#00` is executed. `$a#61$b#62` is executed as one packet or as two, depending on whether it
arrives in one read or in two. -/
theorem session_not_exact :
    (¬ ∀ (socket : List Bytes) (c : Connection Unit),
      Run.Reachable (fun c => c = init socket ()) (Step silent fun _ => True) c →
        c.Exact socket.flatten) ∧
    ¬ ∀ (socket socket' : List Bytes) (c c' : Connection Unit), socket.flatten = socket'.flatten →
      Run.Reachable (fun c => c = init socket ()) (Step silent fun _ => True) c →
      Run.Reachable (fun c => c = init socket' ()) (Step silent fun _ => True) c' →
      c.step silent = .ok none → c'.step silent = .ok none → c.executed = c'.executed := by
  constructor
  · intro h
    have hrun : run silent 3 (init [[0x24, 0x61, 0x23, 0x30, 0x30]] ()) =
        .ok { init [] () with executed := [[0x61]], sent := [.nack] } := rfl
    have hexec := (h _ _ (reachable_run (.start rfl) hrun)).executed
    revert hexec
    decide
  · intro h
    have hone : run silent 3
        (init [[0x24, 0x61, 0x23, 0x36, 0x31, 0x24, 0x62, 0x23, 0x36, 0x32]] ()) =
          .ok { init [] () with
            streambuf := [0x24, 0x62, 0x23, 0x36, 0x32], executed := [[0x61]], sent := [.ack] } :=
      rfl
    have htwo : run silent 6
        (init [[0x24, 0x61, 0x23, 0x36, 0x31], [0x24, 0x62, 0x23, 0x36, 0x32]] ()) =
          .ok { init [] () with executed := [[0x61], [0x62]], sent := [.ack, .ack] } := rfl
    have hreach₁ : Run.Reachable
        (fun c => c = init [[0x24, 0x61, 0x23, 0x36, 0x31, 0x24, 0x62, 0x23, 0x36, 0x32]] ())
        (Step silent fun _ => True) _ := reachable_run (.start rfl) hone
    have hreach₂ : Run.Reachable
        (fun c => c = init [[0x24, 0x61, 0x23, 0x36, 0x31], [0x24, 0x62, 0x23, 0x36, 0x32]] ())
        (Step silent fun _ => True) _ := reachable_run (.start rfl) htwo
    have hsame := h [[0x24, 0x61, 0x23, 0x36, 0x31, 0x24, 0x62, 0x23, 0x36, 0x32]]
      [[0x24, 0x61, 0x23, 0x36, 0x31], [0x24, 0x62, 0x23, 0x36, 0x32]] _ _ rfl hreach₁ hreach₂ rfl rfl
    revert hsame
    decide

end Connection

end Mikage.GDB
