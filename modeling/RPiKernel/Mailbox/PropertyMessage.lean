import Mathlib.Algebra.GroupWithZero.Nat
import Mathlib.Data.List.Forall2
import RPiKernel.Machine.Arithmetic

/-!
# Property messages of the mailbox

A message collects tags in a buffer of 256 words, is sent, and is read back tag by tag.
Writer and reader each advance a position of their own; `tagsSent` is the layout at
which they meet.

## Implementation notes

The buffer is accessed at its GPU address, which is the same memory. What it holds before
the constructor is arbitrary. The firmware is a function of the buffer; the exchange over
the mailbox registers is left out.
-/

namespace RPiKernel.Mailbox

open Machine

/-- A tag with its argument words. -/
structure TagMessage where
  tag : BitVec 32
  args : List (BitVec 32)
  deriving DecidableEq, Repr

namespace TagMessage

def argCount (message : TagMessage) : Nat := message.args.length

/-- What stands before the arguments: the tag, and twice the size of the value. -/
def header (message : TagMessage) : List (BitVec 32) :=
  [message.tag, BitVec.ofNat 32 (mul32 message.argCount 4),
    BitVec.ofNat 32 (mul32 message.argCount 4)]

end TagMessage

def bufferSize : Nat := 256

abbrev Buffer := Vector (BitVec 32) bufferSize

inductive MailboxFault where
  | panic (message : String)
  | halt
  | outOfBounds
  deriving DecidableEq, Repr

structure MailboxMessage where
  buffer : Buffer
  size : Nat := 2
  readPos : Nat := 2

/-- What comes of sending a message: the words that the firmware is given, whether it reports
success, and the message afterwards. -/
structure Exchange where
  sent : List (BitVec 32)
  success : Bool
  message : MailboxMessage

/-- `SendTags` of a span at the start of the buffer. -/
def sendTags (firmware : Buffer → Buffer) (size : Nat) (m : MailboxMessage) :
    Except MailboxFault Exchange :=
  if size ≤ 2 then
    .error .halt
  else
    let data := (m.buffer.set 0 (BitVec.ofNat 32 (mul32 size 4))).set 1 0
    let answer := firmware data
    .ok { sent := data.toList.take size
          success := answer[1] == 0x80000000#32
          message := { m with buffer := answer } }

namespace MailboxMessage

/-- The constructor clears the status. -/
def construct (memory : Buffer) : MailboxMessage where
  buffer := memory.set 1 0

/-- `GpuBuffer()[Size++] = word`. -/
def put (m : MailboxMessage) (word : BitVec 32) : Except MailboxFault MailboxMessage :=
  if h : m.size < bufferSize then
    .ok { m with buffer := m.buffer.set m.size word h, size := m.size + 1 }
  else
    .error .outOfBounds

def putAll : MailboxMessage → List (BitVec 32) → Except MailboxFault MailboxMessage
  | m, [] => .ok m
  | m, word :: words =>
      match m.put word with
      | .error fault => .error fault
      | .ok m => putAll m words

def addTag (m : MailboxMessage) (message : TagMessage) : Except MailboxFault MailboxMessage :=
  if add32 (add32 m.size message.argCount) 3 > bufferSize then
    .error (.panic "Mailbox buffer overflow")
  else
    m.putAll (message.header ++ message.args)

def sendMessage (firmware : Buffer → Buffer) (m : MailboxMessage) :
    Except MailboxFault Exchange :=
  if m.size ≤ 2 then
    .error (.panic "Mailbox message is empty")
  else
    match m.put 0 with
    | .error fault => .error fault
    | .ok m =>
        sendTags firmware m.size
          { m with buffer := m.buffer.set 0 (BitVec.ofNat 32 (mul32 m.size 4)) }

/-- `GpuBuffer()[ReadPos++]`. -/
def get (m : MailboxMessage) : Except MailboxFault (BitVec 32 × MailboxMessage) :=
  if h : m.readPos < bufferSize then
    .ok (m.buffer[m.readPos], { m with readPos := m.readPos + 1 })
  else
    .error .outOfBounds

def getAll : MailboxMessage → Nat → Except MailboxFault (List (BitVec 32) × MailboxMessage)
  | m, 0 => .ok ([], m)
  | m, count + 1 =>
      match m.get with
      | .error fault => .error fault
      | .ok (word, m) => (getAll m count).map fun (words, m) => (word :: words, m)

/-- `ReadTag`: the header is skipped. -/
def readTag (m : MailboxMessage) (message : TagMessage) :
    Except MailboxFault (TagMessage × MailboxMessage) :=
  if add32 (add32 m.readPos message.argCount) 3 > m.size then
    .error (.panic "Mailbox buffer overflow")
  else
    (getAll { m with readPos := m.readPos + 3 } message.argCount).map fun (args, m) =>
      ({ message with args }, m)

/-- The calls of `AddTag` for a list of tags. -/
def addTags : MailboxMessage → List TagMessage → Except MailboxFault MailboxMessage
  | m, [] => .ok m
  | m, message :: messages =>
      match m.addTag message with
      | .error fault => .error fault
      | .ok m => addTags m messages

/-- The calls of `ReadTag` for a list of tags. -/
def readTags : MailboxMessage → List TagMessage →
    Except MailboxFault (List TagMessage × MailboxMessage)
  | m, [] => .ok ([], m)
  | m, message :: messages =>
      match m.readTag message with
      | .error fault => .error fault
      | .ok (message, m) => (readTags m messages).map fun (messages, m) => (message :: messages, m)

end MailboxMessage

/-- The tags of a message, back to back. -/
def tagsSent (messages : List TagMessage) : List (BitVec 32) :=
  messages.flatMap fun message => message.header ++ message.args

/-- The words of a message: the size, the status, the tags and the end tag. -/
def wordCount (messages : List TagMessage) : Nat :=
  (messages.map fun message => message.argCount + 3).sum + 3

/-- The message that the firmware is given. -/
def wordsSent (messages : List TagMessage) : List (BitVec 32) :=
  BitVec.ofNat 32 (4 * wordCount messages) :: 0 :: (tagsSent messages ++ [0])

/-- What the firmware writes over the length and the arguments of a tag. -/
structure TagReply where
  length : BitVec 32
  args : List (BitVec 32)

/-- The tags of a message with the replies in place of the lengths and the arguments. -/
def tagsAnswered : List TagMessage → List TagReply → List (BitVec 32)
  | message :: messages, reply :: replies =>
      message.tag :: BitVec.ofNat 32 (4 * message.argCount) :: reply.length ::
        (reply.args ++ tagsAnswered messages replies)
  | _, _ => []

/-- A list of tags is sent well formed, and the answers to them are read back. -/
def RoundTrips (memory : Buffer) (messages : List TagMessage) : Prop :=
  ∃ m, (MailboxMessage.construct memory).addTags messages = .ok m ∧
    ∀ firmware, ∃ exchange, m.sendMessage firmware = .ok exchange ∧
      exchange.sent = wordsSent messages ∧
      ∀ size status replies,
        List.Forall₂ (fun message reply => reply.args.length = message.argCount) messages replies →
        exchange.message.buffer.toList.take (wordCount messages) =
          size :: status :: (tagsAnswered messages replies ++ [0]) →
        ∃ m', exchange.message.readTags messages = .ok (List.zipWith
          (fun message reply => { message with args := reply.args }) messages replies, m')

section Write

variable {m : MailboxMessage} {words : List (BitVec 32)}

theorem length_buffer (m : MailboxMessage) : m.buffer.toList.length = bufferSize :=
  Vector.length_toList

/-- A word that fits is appended to what has been written. -/
theorem put_ok (h : m.size < bufferSize) (word : BitVec 32) :
    ∃ m', m.put word = .ok m' ∧ m'.size = m.size + 1 ∧ m'.readPos = m.readPos ∧
      m'.buffer.toList.take m'.size = m.buffer.toList.take m.size ++ [word] := by
  refine ⟨_, dif_pos h, rfl, rfl, ?_⟩
  dsimp only
  rw [Vector.toList_set, List.take_add_one, List.take_set_of_le (Nat.le_refl _),
    List.getElem?_set_self (by rw [length_buffer]; exact h)]
  rfl

theorem putAll_ok (words : List (BitVec 32)) (h : m.size + words.length ≤ bufferSize) :
    ∃ m', m.putAll words = .ok m' ∧ m'.size = m.size + words.length ∧ m'.readPos = m.readPos ∧
      m'.buffer.toList.take m'.size = m.buffer.toList.take m.size ++ words := by
  induction words generalizing m with
  | nil => exact ⟨m, rfl, rfl, rfl, (List.append_nil _).symm⟩
  | cons word words ih =>
      rw [List.length_cons] at h
      obtain ⟨m₁, hput, hsize, hpos, htake⟩ := put_ok (by omega : m.size < bufferSize) word
      obtain ⟨m₂, hall, hsize₂, hpos₂, htake₂⟩ := ih (m := m₁) (by omega)
      refine ⟨m₂, ?_, ?_, hpos₂.trans hpos, ?_⟩
      · rw [MailboxMessage.putAll, hput]
        exact hall
      · rw [hsize₂, hsize, List.length_cons]
        omega
      · rw [htake₂, htake, List.append_assoc, List.singleton_append]

theorem tagsSent_cons (message : TagMessage) (messages : List TagMessage) :
    tagsSent (message :: messages) = message.header ++ message.args ++ tagsSent messages := rfl

theorem wordCount_cons (message : TagMessage) (messages : List TagMessage) :
    wordCount (message :: messages) = message.argCount + 3 + wordCount messages := by
  rw [wordCount, wordCount, List.map_cons, List.sum_cons]
  omega

theorem three_le_wordCount (messages : List TagMessage) : 3 ≤ wordCount messages :=
  Nat.le_add_left 3 _

/-- The tags are appended to what has been written. -/
theorem addTags_ok (messages : List TagMessage) (h : m.size + wordCount messages ≤ bufferSize + 2) :
    ∃ m', m.addTags messages = .ok m' ∧ m'.size + 3 = m.size + wordCount messages ∧
      m'.readPos = m.readPos ∧
      m'.buffer.toList.take m'.size = m.buffer.toList.take m.size ++ tagsSent messages := by
  induction messages generalizing m with
  | nil => exact ⟨m, rfl, rfl, rfl, (List.append_nil _).symm⟩
  | cons message messages ih =>
      rw [wordCount_cons] at h
      have hrest := three_le_wordCount messages
      have hlength : (message.header ++ message.args).length = message.argCount + 3 := by
        rw [List.length_append, TagMessage.argCount]
        exact Nat.add_comm _ _
      have hbound : bufferSize = 256 := rfl
      have hsum : add32 (add32 m.size message.argCount) 3 = m.size + message.argCount + 3 := by
        have hinner : add32 m.size message.argCount = m.size + message.argCount :=
          add32_of_lt (by omega)
        rw [hinner, add32_of_lt (by omega)]
      obtain ⟨m₁, hput, hsize, hpos, htake⟩ :=
        putAll_ok (m := m) (message.header ++ message.args) (by omega)
      obtain ⟨m₂, hall, hsize₂, hpos₂, htake₂⟩ := ih (m := m₁) (by omega)
      refine ⟨m₂, ?_, ?_, hpos₂.trans hpos, ?_⟩
      · rw [MailboxMessage.addTags, MailboxMessage.addTag, hsum, if_neg (by omega), hput]
        exact hall
      · rw [wordCount_cons]
        omega
      · rw [htake₂, htake, tagsSent_cons, List.append_assoc]

/-- The first two words are overwritten. -/
theorem take_set_set {words : List (BitVec 32)} {n : Nat} (hwords : 2 ≤ words.length) (hn : 2 ≤ n)
    (size status : BitVec 32) :
    ((words.set 0 size).set 1 status).take n = size :: status :: (words.take n).drop 2 := by
  obtain ⟨n, rfl⟩ := Nat.exists_eq_add_of_le' hn
  match words, hwords with
  | _ :: _ :: words, _ => rfl

/-- The end tag and the size are written, and the firmware gets what has been written. -/
theorem sendMessage_ok (firmware : Buffer → Buffer) (hpos : 2 < m.size) (h : m.size < bufferSize) :
    ∃ exchange, m.sendMessage firmware = .ok exchange ∧
      exchange.sent = BitVec.ofNat 32 (4 * (m.size + 1)) :: 0 ::
        ((m.buffer.toList.take m.size ++ [0]).drop 2) ∧
      exchange.message.size = m.size + 1 ∧ exchange.message.readPos = m.readPos := by
  obtain ⟨m₁, hput, hsize, hread, htake⟩ := put_ok h 0
  have hbound : bufferSize = 256 := rfl
  have hbytes : mul32 m₁.size 4 = 4 * (m.size + 1) := by
    rw [hsize, mul32_of_lt (by omega), Nat.mul_comm]
  have hlength := length_buffer m₁
  rw [MailboxMessage.sendMessage, if_neg (Nat.not_le.mpr hpos), hput]
  dsimp only
  rw [sendTags, if_neg (by omega)]
  refine ⟨_, rfl, ?_, hsize, hread⟩
  dsimp only
  rw [Vector.toList_set, Vector.toList_set, Vector.toList_set, List.set_set,
    take_set_set (by omega) (by omega), htake, hbytes]

end Write

section Read

variable {m : MailboxMessage}

theorem get_ok {word : BitVec 32} {words : List (BitVec 32)}
    (h : m.buffer.toList.drop m.readPos = word :: words) :
    m.get = .ok (word, { m with readPos := m.readPos + 1 }) ∧
      m.buffer.toList.drop (m.readPos + 1) = words := by
  have hlt : m.readPos < m.buffer.toList.length := by
    by_contra hge
    rw [List.drop_eq_nil_of_le (Nat.not_lt.mp hge)] at h
    cases h
  rw [List.drop_eq_getElem_cons hlt, List.cons.injEq] at h
  rw [length_buffer] at hlt
  refine ⟨?_, h.2⟩
  rw [MailboxMessage.get, dif_pos hlt, ← h.1, Vector.getElem_toList]

theorem getAll_ok (args : List (BitVec 32)) {rest : List (BitVec 32)}
    (h : m.buffer.toList.drop m.readPos = args ++ rest) :
    m.getAll args.length = .ok (args, { m with readPos := m.readPos + args.length }) := by
  induction args generalizing m with
  | nil => rfl
  | cons word args ih =>
      obtain ⟨hget, hdrop⟩ := get_ok h
      have hrest := ih (m := { m with readPos := m.readPos + 1 }) hdrop
      rw [List.length_cons, MailboxMessage.getAll, hget]
      dsimp only
      rw [hrest, Except.map]
      dsimp only
      rw [Nat.add_assoc, Nat.add_comm 1 args.length]

theorem tagsAnswered_cons (message : TagMessage) (messages : List TagMessage) (reply : TagReply)
    (replies : List TagReply) : tagsAnswered (message :: messages) (reply :: replies) =
      message.tag :: BitVec.ofNat 32 (4 * message.argCount) :: reply.length ::
        (reply.args ++ tagsAnswered messages replies) := rfl

/-- The tags that lie ahead are read as they have been answered. -/
theorem readTags_ok {messages : List TagMessage} {replies : List TagReply}
    {rest : List (BitVec 32)} (hsize : m.size ≤ bufferSize + 1)
    (hreplies : List.Forall₂ (fun message reply => reply.args.length = message.argCount)
      messages replies)
    (hroom : m.readPos + wordCount messages ≤ m.size + 2)
    (h : m.buffer.toList.drop m.readPos = tagsAnswered messages replies ++ rest) :
    ∃ m', m.readTags messages = .ok (List.zipWith
      (fun message reply => { message with args := reply.args }) messages replies, m') := by
  induction hreplies generalizing m with
  | nil => exact ⟨m, rfl⟩
  | @cons message reply messages replies hargs _ ih =>
      have hbound : bufferSize = 256 := rfl
      rw [wordCount_cons] at hroom
      have hcount := three_le_wordCount messages
      have hsum : add32 (add32 m.readPos message.argCount) 3 =
          m.readPos + message.argCount + 3 := by
        have hinner : add32 m.readPos message.argCount = m.readPos + message.argCount :=
          add32_of_lt (by omega)
        rw [hinner, add32_of_lt (by omega)]
      rw [tagsAnswered_cons, List.cons_append, List.cons_append, List.cons_append,
        List.append_assoc] at h
      have hargsAt : m.buffer.toList.drop (m.readPos + 3) =
          reply.args ++ (tagsAnswered messages replies ++ rest) := by
        rw [← List.drop_drop, h]
        rfl
      have hread := getAll_ok (m := { m with readPos := m.readPos + 3 }) reply.args hargsAt
      have hrestAt : m.buffer.toList.drop (m.readPos + 3 + reply.args.length) =
          tagsAnswered messages replies ++ rest := by
        rw [← List.drop_drop, hargsAt, List.drop_left]
      obtain ⟨m', htags⟩ := ih (m := { m with readPos := m.readPos + 3 + reply.args.length })
        hsize (by dsimp only; omega) hrestAt
      refine ⟨m', ?_⟩
      rw [MailboxMessage.readTags, MailboxMessage.readTag, hsum, if_neg (by omega), ← hargs, hread]
      dsimp only [Except.map]
      rw [htags]
      rfl

end Read

section RoundTrip

/-- Every list of tags that fits the buffer, and is not empty, makes the round trip. -/
theorem roundTrips (memory : Buffer) {messages : List TagMessage} (hne : messages ≠ [])
    (hfit : wordCount messages ≤ bufferSize) : RoundTrips memory messages := by
  have hbound : bufferSize = 256 := rfl
  have hcount : 6 ≤ wordCount messages := by
    obtain ⟨message, messages, rfl⟩ := List.exists_cons_of_ne_nil hne
    have hrest := three_le_wordCount messages
    rw [wordCount_cons]
    omega
  have hsize : (MailboxMessage.construct memory).size = 2 := rfl
  have hread : (MailboxMessage.construct memory).readPos = 2 := rfl
  obtain ⟨m, hadd, hsizeAdd, hposAdd, htake⟩ :=
    addTags_ok (m := MailboxMessage.construct memory) messages (by omega)
  refine ⟨m, hadd, fun firmware => ?_⟩
  obtain ⟨exchange, hsend, hsent, hsizeSent, hposSent⟩ :=
    sendMessage_ok (m := m) firmware (by omega) (by omega)
  refine ⟨exchange, hsend, ?_, fun size status replies hreplies hanswer => ?_⟩
  · have hheader : ((MailboxMessage.construct memory).buffer.toList.take 2).length = 2 := by
      rw [List.length_take, length_buffer]
      rfl
    rw [hsent, htake, hsize, List.append_assoc, List.drop_left' hheader, wordsSent,
      show m.size + 1 = wordCount messages by omega]
  · have hahead : exchange.message.buffer.toList.drop exchange.message.readPos =
        tagsAnswered messages replies ++
          ([0] ++ exchange.message.buffer.toList.drop (wordCount messages)) := by
      have hsplit : exchange.message.buffer.toList = size :: status ::
          (tagsAnswered messages replies ++ [0]) ++
            exchange.message.buffer.toList.drop (wordCount messages) := by
        rw [← hanswer, List.take_append_drop]
      rw [hposSent, hposAdd, hread]
      exact (congrArg (List.drop 2) hsplit).trans (List.append_assoc ..)
    exact readTags_ok (by omega) hreplies (by omega) hahead

/-- The board revision is asked for, and the firmware answers 0xA02082. -/
theorem roundTrips_boardRevision : RoundTrips (Vector.replicate bufferSize 0)
    [⟨0x00010002#32, [0]⟩] :=
  roundTrips _ (List.cons_ne_nil _ _) (by decide)

/-- A message without tags fits the buffer, but is not sent. -/
theorem not_roundTrips_empty :
    ¬ ∀ memory messages, wordCount messages ≤ bufferSize → RoundTrips memory messages := by
  intro h
  obtain ⟨m, hadd, hsend⟩ := h (Vector.replicate bufferSize 0) [] (by decide)
  cases hadd
  obtain ⟨exchange, hexchange, -⟩ := hsend id
  have hpanic : (MailboxMessage.construct (Vector.replicate bufferSize 0)).sendMessage id =
      .error (.panic "Mailbox message is empty") := rfl
  rw [hpanic] at hexchange
  cases hexchange

end RoundTrip

end RPiKernel.Mailbox
