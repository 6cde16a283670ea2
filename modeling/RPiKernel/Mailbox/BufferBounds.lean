import RPiKernel.Mailbox.PropertyMessage

/-!
# The bounds of the message buffer

`AddTag` panics for a tag that does not fit the buffer, and `SendMessage` appends one more word, the
end tag. A message whose tags fill the buffer is accepted, and its end tag is written behind the
buffer.
-/

namespace RPiKernel.Mailbox

open Machine

/-- The calls of `AddTag` for a list of tags, and then `SendMessage`. -/
def sendMessages (firmware : Buffer → Buffer) (memory : Buffer) (messages : List TagMessage) :
    Except MailboxFault Exchange :=
  match (MailboxMessage.construct memory).addTags messages with
  | .error fault => .error fault
  | .ok m => m.sendMessage firmware

/-- `AddTag` panics for none of the tags. -/
def Accepted (memory : Buffer) (messages : List TagMessage) : Prop :=
  ∀ text, (MailboxMessage.construct memory).addTags messages ≠ .error (.panic text)

/-- Every word is written inside the buffer. -/
def WritesInside (memory : Buffer) (messages : List TagMessage) : Prop :=
  ∀ firmware, sendMessages firmware memory messages ≠ .error .outOfBounds

section Outcome

variable {m : MailboxMessage}

/-- Words for which there is no room are written beyond the buffer. -/
theorem putAll_outside (words : List (BitVec 32)) (hsize : m.size ≤ bufferSize)
    (h : bufferSize < m.size + words.length) : m.putAll words = .error .outOfBounds := by
  induction words generalizing m with
  | nil =>
    rw [List.length_nil] at h
    omega
  | cons word words ih =>
    rw [MailboxMessage.putAll]
    by_cases hroom : m.size < bufferSize
    · obtain ⟨m₁, hput, hnext, -⟩ := put_ok hroom word
      rw [List.length_cons] at h
      rw [hput]
      exact ih (by omega) (by omega)
    · rw [MailboxMessage.put, dif_neg hroom]

/-- The tags are refused, written beyond the buffer, or written. -/
theorem addTags_cases (messages : List TagMessage) (hsize : m.size ≤ bufferSize) :
    (∃ text, m.addTags messages = .error (.panic text)) ∨
      m.addTags messages = .error .outOfBounds ∧ bufferSize + 3 < m.size + wordCount messages ∨
      ∃ m', m.addTags messages = .ok m' ∧ m'.size + 3 = m.size + wordCount messages ∧
        m'.size ≤ bufferSize := by
  induction messages generalizing m with
  | nil => exact .inr (.inr ⟨m, rfl, rfl, hsize⟩)
  | cons message messages ih =>
    have hlength : (message.header ++ message.args).length = message.argCount + 3 := by
      rw [List.length_append, TagMessage.argCount]
      exact Nat.add_comm _ _
    have hrest := three_le_wordCount messages
    rw [MailboxMessage.addTags, MailboxMessage.addTag, wordCount_cons]
    by_cases hrefused : add32 (add32 m.size message.argCount) 3 > bufferSize
    · rw [if_pos hrefused]
      exact .inl ⟨_, rfl⟩
    rw [if_neg hrefused]
    by_cases hroom : m.size + (message.header ++ message.args).length ≤ bufferSize
    · obtain ⟨m₁, hput, hnext, -⟩ := putAll_ok _ hroom
      rw [hput]
      dsimp only
      rw [hlength] at hroom hnext
      obtain hpanic | ⟨houtside, hlong⟩ | ⟨m', hok, hcount, hfits⟩ := @ih m₁ (by omega)
      · exact .inl hpanic
      · exact .inr (.inl ⟨houtside, by omega⟩)
      · exact .inr (.inr ⟨m', hok, by omega, hfits⟩)
    · rw [putAll_outside _ hsize (not_le.mp hroom)]
      rw [hlength] at hroom
      exact .inr (.inl ⟨rfl, by omega⟩)

/-- The end tag is written behind a buffer that is full. -/
theorem sendMessage_full (firmware : Buffer → Buffer) (hfull : m.size = bufferSize) :
    m.sendMessage firmware = .error .outOfBounds := by
  have hbound : bufferSize = 256 := rfl
  rw [MailboxMessage.sendMessage, if_neg (by omega), MailboxMessage.put, dif_neg hfull.not_lt]

/-- A message that is not full is sent, or is refused for being empty. -/
theorem sendMessage_inside (firmware : Buffer → Buffer) (h : m.size < bufferSize) :
    m.sendMessage firmware ≠ .error .outOfBounds := by
  by_cases hempty : m.size ≤ 2
  · rw [MailboxMessage.sendMessage, if_pos hempty]
    exact fun hfault => by cases hfault
  · obtain ⟨exchange, hsend, -⟩ := sendMessage_ok firmware (not_le.mp hempty) h
    rw [hsend]
    exact fun hfault => by cases hfault

end Outcome

variable {memory : Buffer} {messages : List TagMessage}

theorem sendMessages_of_ok {m : MailboxMessage}
    (h : (MailboxMessage.construct memory).addTags messages = .ok m) (firmware : Buffer → Buffer) :
    sendMessages firmware memory messages = m.sendMessage firmware := by
  rw [sendMessages, h]

/-- Tags that are accepted need one word more than there is. -/
theorem not_writesInside_of_long (haccepted : Accepted memory messages)
    (hlong : bufferSize < wordCount messages) : ¬ WritesInside memory messages := by
  intro hinside
  have hstart : (MailboxMessage.construct memory).size = 2 := rfl
  have hbound : bufferSize = 256 := rfl
  obtain ⟨text, hpanic⟩ | ⟨houtside, -⟩ | ⟨m, hok, hcount, hfits⟩ :=
    @addTags_cases (MailboxMessage.construct memory) messages (by omega)
  · exact haccepted text hpanic
  · refine hinside id ?_
    rw [sendMessages, houtside]
  · exact hinside id ((sendMessages_of_ok hok id).trans (sendMessage_full id (by omega)))

theorem writesInside_of_short (hshort : wordCount messages ≤ bufferSize) :
    WritesInside memory messages := by
  intro firmware
  have hstart : (MailboxMessage.construct memory).size = 2 := rfl
  obtain ⟨m, hok, hcount, -⟩ :=
    @addTags_ok (MailboxMessage.construct memory) messages (by omega)
  rw [sendMessages_of_ok hok]
  exact sendMessage_inside firmware (by omega)

/-- Tags that are accepted are sent without a write beyond the buffer exactly if the whole message,
with its size, its status and its end tag, fits the buffer. -/
theorem writesInside_iff (haccepted : Accepted memory messages) :
    WritesInside memory messages ↔ wordCount messages ≤ bufferSize :=
  ⟨fun hinside => not_lt.mp fun hlong => not_writesInside_of_long haccepted hlong hinside,
    writesInside_of_short⟩

/-- A tag with as many arguments as `AddTag` accepts. -/
def fullTag : TagMessage := ⟨0x00010002#32, List.replicate 251 0⟩

theorem argCount_fullTag : fullTag.argCount = 251 := List.length_replicate

theorem wordCount_fullTag : wordCount [fullTag] = 257 := by
  rw [wordCount_cons, argCount_fullTag]
  rfl

theorem accepted_fullTag (memory : Buffer) : Accepted memory [fullTag] := by
  intro text hpanic
  have hsize : (MailboxMessage.construct memory).size = 2 := rfl
  have hroom : 2 + (fullTag.header ++ fullTag.args).length ≤ bufferSize := by
    have hargs : fullTag.args.length = 251 := argCount_fullTag
    have hheader : fullTag.header.length = 3 := rfl
    rw [List.length_append, hargs, hheader]
    decide
  obtain ⟨m, hput, -⟩ := @putAll_ok (MailboxMessage.construct memory) _ hroom
  rw [MailboxMessage.addTags, MailboxMessage.addTag, hsize, argCount_fullTag, if_neg (by decide),
    hput] at hpanic
  cases hpanic

theorem writesInside_iff_full :
    ¬ WritesInside (Vector.replicate bufferSize 0) [fullTag] := by
  intro hinside
  have hfits := (writesInside_iff (accepted_fullTag _)).mp hinside
  rw [wordCount_fullTag] at hfits
  exact absurd hfits (by decide)

/-- A message that is full is accepted, and its end tag is written behind the buffer. -/
theorem not_writesInside :
    ¬ ∀ memory messages, Accepted memory messages → WritesInside memory messages := by
  intro h
  have haccepted := accepted_fullTag (Vector.replicate bufferSize 0)
  have hlong : bufferSize < wordCount [fullTag] := by
    rw [wordCount_fullTag]
    decide
  exact not_writesInside_of_long haccepted hlong (h _ _ haccepted)

end RPiKernel.Mailbox
