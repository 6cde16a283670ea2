import RPiKernel.Usb.Enumeration

/-!
# The answers to an enumeration

`EnumerateDevice` over the messages that it sends does to the tables what it does for the answers
of a host and a device: `enumerateDevice_of_run` says that every enumeration over messages that ends
is one of those that the connection changes are made of.

## Implementation notes

The host reports for a transfer the number of the bytes that it delivers. The requests to the ports
of a hub that are checked change no tables here, as in `enumerateHub`.
-/

namespace RPiKernel.Usb

open Machine

/-- The replies to come report as many bytes as they deliver. -/
def Reported (replies : Stream' ControlReply) : Prop :=
  ∀ n, (replies.get n).transferred = (replies.get n).received.length

namespace Answers

/-- The steps 6 and 7 of `enumerateDevice`. -/
def configure (t : Tables) (d : Nat) (answers : Answers) : Option (Result × Tables) :=
  if answers.setConfiguration ≠ .ok then
    some (answers.setConfiguration, t)
  else if answers.hubClass then
    some (enumerateHub t d answers)
  else
    some (.ok, t)

/-- `enumerateDevice` after the parsing of the configuration. -/
def afterParsing (t : Tables) (d : Nat) (answers : Answers) :
    Option (Except Fault (Option Result × ParseState)) → Option (Result × Tables)
  | none => none
  | some (.error _) => none
  | some (.ok (result, s)) =>
      let t := { t.setDevice d s.device with hidTable := s.hidTable }
      match result with
      | some result => some (result, t)
      | none => answers.configure t d

/-- `enumerateDevice` from step 4 on. -/
def describe (fuel : Nat) (t : Tables) (d : Nat) (answers : Answers) :
    Option (Result × Tables) :=
  if answers.deviceDescriptor ≠ .ok then
    some (answers.deviceDescriptor, t)
  else if answers.configDescriptor ≠ .ok then
    some (answers.configDescriptor, t)
  else
    answers.afterParsing t d (readConfiguration fuel answers.wTotalLength answers.received
      answers.stack (t.deviceTable d) t.hidTable)

/-- `enumerateDevice` from step 2 on. -/
def address (fuel : Nat) (t : Tables) (d : Nat) (answers : Answers) : Option (Result × Tables) :=
  if answers.portReset ≠ .ok then
    some (answers.portReset, t)
  else if answers.setAddress ≠ .ok then
    some (answers.setAddress, t)
  else
    answers.describe fuel t d

end Answers

theorem enumerateDevice_eq (fuel : Nat) (t : Tables) (d : Nat) (answers : Answers) :
    enumerateDevice fuel t d answers =
      if answers.firstBytes ≠ .ok then
        some (answers.firstBytes, t.setNumber d 0)
      else
        answers.address fuel ((t.setNumber d 0).setNumber d (t.deviceTable d).number) d :=
  rfl

section Reported

variable {replies : Stream' ControlReply}

theorem Reported.tail (h : Reported replies) : Reported replies.tail := fun n => h (n + 1)

theorem Reported.afterDescriptor (h : Reported replies) (type : UInt8) :
    Reported (afterDescriptor type replies) := by
  rw [Usb.afterDescriptor]
  split
  · exact h.tail.tail
  · exact h.tail

/-- The replies that the reading of a descriptor leaves. -/
theorem replies_of_hcdGetDescriptor {pipe0 : UsbPipe} {type index : UInt8} {langId : UInt16}
    {buffer : Nat → UInt8} {capacity length : Nat} {recipient : UInt8} {s s' : ControlState}
    {report : DescriptorReport}
    (hrun : (hcdGetDescriptor pipe0 type index langId buffer capacity length recipient true).run s =
      .ok report s') :
    s'.replies = afterDescriptor type s.replies := by
  by_cases hfits : (arrivedBytes type length s.replies).length ≤ capacity
  · obtain ⟨sent, hread⟩ := @yields_hcdGetDescriptor pipe0 type index langId buffer capacity length
      recipient s.replies s.sent hfits
    rw [hrun] at hread
    cases hread
    rfl
  · have hfault := @faults_hcdGetDescriptor pipe0 type index langId buffer capacity length
      recipient s.replies s.sent hfits
    exact absurd ⟨s'.sent, hrun⟩ hfault.not_yields

/-- What arrives in a buffer with a capacity fits it. -/
theorem of_run_arrive {capacity length : Nat} {buffer buffer' : Nat → UInt8}
    {received : List UInt8} {s s' : ControlState}
    (hrun : (arrive capacity buffer length received).run s = .ok buffer' s') :
    (received.take length).length ≤ capacity ∧
      buffer' = overwrite buffer (received.take length) ∧ s' = s := by
  by_cases hfits : (received.take length).length ≤ capacity
  · rw [arrive, if_pos hfits] at hrun
    cases hrun
    exact ⟨hfits, rfl, rfl⟩
  · rw [arrive, if_neg hfits] at hrun
    cases hrun

end Reported

/-- The configuration is read as a host delivers it, or it is refused. -/
def ReadAs (stack : Nat → UInt8) : Except Result EnumerationDescriptors → Prop
  | .error result => result ≠ .ok
  | .ok descriptors => ∃ received, received.length ≤ configBufferSize ∧
      received.length = wordAt descriptors.configDesc 2 ∧
      descriptors.configBuffer = configBuffer received stack

section Steps

variable {setting : EnumerationSetting} {pipe0 : UsbPipe} {s s' : ControlState} {t : Tables}
  {d : Nat}

theorem readAs_of_readConfigurations {descriptor : Nat → UInt8}
    {read : Except Result EnumerationDescriptors} (hreported : Reported s.replies)
    (hrun : (readConfigurations setting pipe0 descriptor).run s = .ok read s') :
    ReadAs setting.memory.configBuffer read := by
  obtain ⟨report, s₁, hreport, hread⟩ := exists_of_run_bind hrun
  split at hread
  · cases hread
    exact Result.noConfusion
  split at hread
  · cases hread
    exact Result.noConfusion
  obtain ⟨reply, s₂, hreply, hconfig⟩ := exists_of_run_bind hread
  obtain ⟨bytes, s₃, harrive, hresult⟩ := exists_of_run_bind hconfig
  obtain ⟨hfits, hbytes, -⟩ := of_run_arrive harrive
  split at hresult
  · next hfailed =>
    cases hresult
    change (if reply.result ≠ .ok then reply.result else .errorDevice) ≠ .ok
    split
    · next hne => exact hne
    · exact Result.noConfusion
  · next hcomplete =>
    cases hresult
    have hlength : reply.received.length = wordAt report.buffer 2 := by
      have hall := hreported.afterDescriptor 2 0
      rw [← replies_of_hcdGetDescriptor hreport] at hall
      cases hreply
      exact hall.symm.trans (not_not.mp (not_or.mp hcomplete).2)
    rw [← hlength, List.take_length] at hfits hbytes
    exact ⟨reply.received, hfits, hlength, hbytes⟩

theorem readAs_of_readDescriptors {read : Except Result EnumerationDescriptors}
    (hreported : Reported s.replies)
    (hrun : (readDescriptors setting pipe0).run s = .ok read s') :
    ReadAs setting.memory.configBuffer read := by
  obtain ⟨report, s₁, hreport, hread⟩ := exists_of_run_bind hrun
  split at hread
  · cases hread
    exact Result.noConfusion
  split at hread
  · next hfailed =>
    cases hread
    exact hfailed
  have hrest := hreported.afterDescriptor 1
  rw [← replies_of_hcdGetDescriptor hreport] at hrest
  exact readAs_of_readConfigurations hrest hread

/-- `enumerateHub` with a payload and a descriptor. -/
theorem enumerateHub_described {t₁ : Tables} {n : Nat} (hadd : addHubPayload t d = .ok (n, t₁))
    (portCount : Nat) (status : Result) :
    enumerateHub t d { hubDescriptor := some portCount, hubStatus := status } =
      (status,
        let t := t₁.setHub n { t₁.hubTable n with children := fun _ => none }
        if maxChildrenPerDevice < portCount then t
        else t.setHub n { t.hubTable n with maxChildren := portCount }) := by
  rw [enumerateHub, hadd]
  dsimp only
  split
  · rfl
  · rfl

/-- `EnumerateHub` over messages is that of some answers. -/
theorem exists_enumerateHub {out : Result × Tables}
    (hrun : (UsbM.enumerateHub setting pipe0 t d).run s = .ok out s') :
    ∃ answers, enumerateHub t d answers = out := by
  rw [UsbM.enumerateHub] at hrun
  split at hrun
  · next result hadd =>
    cases hrun
    refine ⟨{}, ?_⟩
    rw [enumerateHub, hadd]
  · next n t₁ hadd =>
    obtain ⟨report, s₁, hreport, hread⟩ := exists_of_run_bind hrun
    split at hread
    · cases hread
      refine ⟨{ hubDescriptor := none }, ?_⟩
      rw [enumerateHub, hadd]
    · obtain ⟨⟨result, status⟩, s₂, hstatus, hports⟩ := exists_of_run_bind hread
      dsimp only at hports
      by_cases hfailed : result ≠ .ok
      · rw [if_pos hfailed] at hports
        cases hports
        exact ⟨_, enumerateHub_described hadd _ _⟩
      · rw [if_neg hfailed] at hports
        obtain ⟨-, s₃, -, hchecks⟩ := exists_of_run_bind hports
        obtain ⟨-, s₄, -, hend⟩ := exists_of_run_bind hchecks
        cases hend
        exact ⟨_, enumerateHub_described hadd _ _⟩

/-- The steps 6 and 7 over messages are those of some answers. -/
theorem exists_configure {descriptors : EnumerationDescriptors} {hidCount : Nat}
    {out : Result × Tables}
    (hrun : (UsbM.configure setting pipe0 descriptors hidCount t d).run s = .ok out s') :
    ∃ answers : Answers, answers.configure t d = some out := by
  obtain ⟨result, s₁, hset, hstrings⟩ := exists_of_run_bind hrun
  split at hstrings
  · next hfailed =>
    cases hstrings
    exact ⟨{ setConfiguration := result }, if_pos hfailed⟩
  obtain ⟨-, s₂, -, hclass⟩ := exists_of_run_bind hstrings
  split at hclass
  · obtain ⟨answers, hanswers⟩ := exists_enumerateHub hclass
    refine ⟨{ answers with setConfiguration := .ok, hubClass := true }, ?_⟩
    rw [← hanswers]
    rfl
  split at hclass
  · obtain ⟨-, s₃, -, hend⟩ := exists_of_run_bind hclass
    cases hend
    exact ⟨{}, rfl⟩
  · cases hclass
    exact ⟨{}, rfl⟩

/-- The configuration as a host delivers it. -/
theorem readConfiguration_of_received {fuel wTotalLength : Nat} {received : List UInt8}
    (hfits : received.length ≤ configBufferSize) (hlength : received.length = wTotalLength)
    (stack : Nat → UInt8) (device : UsbDevice) (hidTable : Nat → HidDevice) :
    readConfiguration fuel wTotalLength received stack device hidTable =
      parseLoop (configBuffer received stack) (parseBound wTotalLength) fuel
        { device, hidTable } := by
  rw [readConfiguration, if_neg (not_lt.mpr hfits), if_neg (not_not.mpr hlength)]

/-- The enumeration from step 4 on over messages is that of some answers. -/
theorem exists_describe {fuel : Nat} {out : Option (Result × Tables)}
    (hreported : Reported s.replies)
    (hrun : (UsbM.enumerateAddressed setting fuel pipe0 t d).run s = .ok out s') :
    ∃ answers : Answers, answers.describe fuel t d = out := by
  obtain ⟨read, s₁, hread, hparse⟩ := exists_of_run_bind hrun
  have hreadAs := readAs_of_readDescriptors hreported hread
  cases read with
  | error result =>
    cases hparse
    exact ⟨{ deviceDescriptor := result }, if_pos hreadAs⟩
  | ok descriptors =>
    obtain ⟨received, hfits, hlength, hbuffer⟩ := hreadAs
    have hdescribe : ∀ answers : Answers, Answers.describe fuel t d { answers with
          deviceDescriptor := .ok
          configDescriptor := .ok
          wTotalLength := wordAt descriptors.configDesc 2
          received := received
          stack := setting.memory.configBuffer } =
        answers.afterParsing t d (parseLoop descriptors.configBuffer
          (parseBound (wordAt descriptors.configDesc 2)) fuel
          { device := t.deviceTable d, hidTable := t.hidTable }) := by
      intro answers
      rw [hbuffer, ← readConfiguration_of_received hfits hlength]
      rfl
    dsimp only at hparse
    split at hparse
    · next hloop =>
      cases hparse
      refine ⟨_, (hdescribe {}).trans ?_⟩
      rw [hloop, Answers.afterParsing]
    · cases hparse
    · next result s₂ hloop =>
      cases result with
      | some result =>
        cases hparse
        refine ⟨_, (hdescribe {}).trans ?_⟩
        rw [hloop, Answers.afterParsing]
      | none =>
        obtain ⟨out, s₃, hconfigure, hend⟩ := exists_of_run_bind hparse
        cases hend
        obtain ⟨answers, hanswers⟩ := exists_configure hconfigure
        refine ⟨_, (hdescribe answers).trans ?_⟩
        rw [hloop]
        exact hanswers

/-- The enumeration from step 2 on over messages is that of some answers. -/
theorem exists_address {fuel address : Nat} {out : Option (Result × Tables)}
    (hreported : Reported s.replies)
    (hrun : (UsbM.enumerateOver setting fuel pipe0 address t d).run s = .ok out s') :
    ∃ answers : Answers, answers.address fuel (t.setNumber d address) d = out := by
  rw [UsbM.enumerateOver] at hrun
  split at hrun
  · next hreset =>
    cases hrun
    exact ⟨{ portReset := setting.portReset }, if_pos hreset⟩
  obtain ⟨result, s₁, hset, hrest⟩ := exists_of_run_bind hrun
  split at hrest
  · next hfailed =>
    cases hrest
    exact ⟨{ setAddress := result }, if_pos hfailed⟩
  next hok =>
  have hreplies : Reported s₁.replies := by
    rw [hcdSetAddress] at hset
    split at hset
    · cases hset
      exact hreported
    · obtain ⟨reply, s₂, hreply, hend⟩ := exists_of_run_bind hset
      cases hend
      cases hreply
      exact hreported.tail
  obtain ⟨answers, hanswers⟩ := exists_describe hreplies hrest
  refine ⟨{ answers with portReset := .ok, setAddress := .ok }, ?_⟩
  rw [← hanswers]
  rfl

/-- Where every transfer is reported as it is delivered, an enumeration over messages that ends is
the enumeration of the tables for some answers. -/
theorem enumerateDevice_of_run {fuel : Nat} {out : Option (Result × Tables)}
    (hreported : Reported s.replies)
    (hrun : (UsbM.enumerateDevice setting fuel t d).run s = .ok out s') :
    ∃ answers, enumerateDevice fuel t d answers = out := by
  obtain ⟨reply, s₁, hreply, hfirst⟩ := exists_of_run_bind hrun
  obtain ⟨desc, s₂, harrive, hrest⟩ := exists_of_run_bind hfirst
  split at hrest
  · next hfailed =>
    cases hrest
    refine ⟨{ firstBytes := if reply.result ≠ .ok then reply.result else .errorTransmission }, ?_⟩
    rw [enumerateDevice_eq]
    refine if_pos ?_
    dsimp only
    split
    · next hne => exact hne
    · exact Result.noConfusion
  · have hreplies : Reported s₂.replies := by
      rw [(of_run_arrive harrive).2.2]
      cases hreply
      exact hreported.tail
    obtain ⟨answers, hanswers⟩ := exists_address hreplies hrest
    refine ⟨{ answers with firstBytes := .ok }, ?_⟩
    rw [enumerateDevice_eq, ← hanswers]
    rfl

end Steps

end RPiKernel.Usb
