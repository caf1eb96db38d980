import Gvsoc.NinaSession

/-! Which commands of the received bytes are answered, and that the parameters of the line are always ones the module supports. -/
namespace Gvsoc.NinaSession
open Bytes (Byte)
open CText (ch ascii)
open NinaUart (UartCfg UartParity)

section Receive

variable {s t : Nina} {bytes more : List Byte}

theorem receiveAppend (s : Nina) (bytes more : List Byte) : s.receive (bytes ++ more) = (s.receive bytes).receive more := List.foldl_append

theorem dotPlain {c : Byte} (plain : dot c = true) : c ≠ cr := by
  unfold dot at plain
  simp only [ne_eq, Bool.and_eq_true, decide_eq_true_eq] at plain
  exact plain.1

theorem dotsPlain (dots : bytes.all dot = true) : cr ∉ bytes := fun member => dotPlain (List.all_eq_true.mp dots cr member) rfl

theorem holdsCommandAt (buffer : List Byte) :
    Nina.holdsCommand (buffer ++ [cr]) = true ↔ ∃ inputCmd, inputCmd.all dot = true ∧ buffer = ascii "AT" ++ inputCmd := by
  have two : (ascii "AT").length = 2 := rfl
  unfold Nina.holdsCommand
  simp only [Bool.and_eq_true, decide_eq_true_eq, List.isPrefixOf_iff_prefix, List.length_append, List.length_singleton]
  constructor
  · rintro ⟨⟨⟨⟨tail, shape⟩, -⟩, long⟩, dots⟩
    have whole : buffer = ascii "AT" ++ buffer.drop 2 := by
      have front : (ascii "AT" ++ tail).take 2 = (buffer ++ [cr]).take 2 := congrArg (List.take 2) shape
      rw [List.take_append_of_le_length (by omega), List.take_append_of_le_length (by omega), List.take_of_length_le (by omega)] at front
      rw [front, List.take_append_drop]
    refine ⟨buffer.drop 2, ?_, whole⟩
    rwa [List.drop_append_of_le_length (by omega), List.dropLast_concat] at dots
  · rintro ⟨inputCmd, dots, rfl⟩
    refine ⟨⟨⟨⟨inputCmd ++ [cr], by simp⟩, by simp⟩, by simp [two]⟩, ?_⟩
    rwa [List.append_assoc, ← two, List.drop_left, List.dropLast_concat]

theorem handleData (mode : s.operatingMode = .data) (byte : Byte) : s.rxHandleByte byte =
    if s.loopbackSize ≤ s.inputBuffer.length + 1 then { s.txSendBuffer (s.inputBuffer ++ [byte]) with inputBuffer := [] }
    else { s with inputBuffer := s.inputBuffer ++ [byte] } := by
  obtain ⟨operatingMode, localName, size, cfg, buffer, sent⟩ := s
  obtain rfl : operatingMode = .data := mode
  unfold Nina.rxHandleByte
  dsimp only
  rw [List.length_append, List.length_singleton]
  rfl

theorem handleKept (mode : s.operatingMode = .command) {byte : Byte}
    (other : byte = cr → Nina.holdsCommand (s.inputBuffer ++ [byte]) = false) :
    s.rxHandleByte byte = { s with inputBuffer := s.inputBuffer ++ [byte] } := by
  unfold Nina.rxHandleByte
  dsimp only
  rw [mode]
  dsimp only
  by_cases last : byte = cr
  · rw [if_pos last, if_neg (by simp [other last])]
  · rw [if_neg last]

theorem receiveOpen (mode : s.operatingMode = .command) (unended : cr ∉ bytes) :
    s.receive bytes = { s with inputBuffer := s.inputBuffer ++ bytes } := by
  induction bytes generalizing s with
  | nil => simp [Nina.receive]
  | cons byte rest ih =>
      have plain : byte ≠ cr := fun same => unended (by simp [same])
      have kept : s.rxHandleByte byte = { s with inputBuffer := s.inputBuffer ++ [byte] } :=
        handleKept mode fun same => absurd same plain
      have later := ih (s := s.rxHandleByte byte) (by rw [kept]; exact mode) fun member => unended (List.mem_cons_of_mem _ member)
      unfold Nina.receive at later ⊢
      rw [List.foldl_cons, later, kept]
      simp

theorem receiveStuck (mode : s.operatingMode = .command) (stuck : cr ∈ s.inputBuffer) (bytes : List Byte) :
    s.receive bytes = { s with inputBuffer := s.inputBuffer ++ bytes } := by
  induction bytes generalizing s with
  | nil => simp [Nina.receive]
  | cons byte rest ih =>
      have kept : s.rxHandleByte byte = { s with inputBuffer := s.inputBuffer ++ [byte] } := by
        refine handleKept mode fun last => ?_
        rw [last, ← Bool.not_eq_true, holdsCommandAt]
        rintro ⟨inputCmd, dots, shape⟩
        rw [shape, List.mem_append] at stuck
        rcases stuck with start | inside
        · exact absurd start (by decide)
        · exact dotsPlain dots inside
      have later := ih (s := s.rxHandleByte byte) (by rw [kept]; exact mode) (by rw [kept]; simp [stuck])
      unfold Nina.receive at later ⊢
      rw [List.foldl_cons, later, kept]
      simp

/- A command does not depend on the buffer it was read from. -/
theorem operatingModeBuffer (s : Nina) (buffer inputCmd : List Byte) : Nina.operatingModeCmd { s with inputBuffer := buffer } inputCmd =
    { s.operatingModeCmd inputCmd with inputBuffer := buffer } := by
  unfold Nina.operatingModeCmd
  dsimp only
  split
  · rfl
  · split <;> rfl

theorem rs232Buffer (s : Nina) (buffer inputCmd : List Byte) : Nina.rs232Cmd { s with inputBuffer := buffer } inputCmd =
    ({ (s.rs232Cmd inputCmd).1 with inputBuffer := buffer }, (s.rs232Cmd inputCmd).2) := by
  unfold Nina.rs232Cmd
  dsimp only
  split
  · rfl
  · dsimp only
    split <;> rfl

def parsedInto (buffer : List Byte) (parsed : Nina × List Byte) : Nina × List Byte :=
  ({ parsed.1 with inputBuffer := buffer }, parsed.2)

theorem parseCmdBuffer (s : Nina) (buffer inputCmd : List Byte) :
    Nina.parseCmd { s with inputBuffer := buffer } inputCmd = parsedInto buffer (s.parseCmd inputCmd) := by
  unfold Nina.parseCmd
  rw [operatingModeBuffer, rs232Buffer]
  simp only [apply_ite (parsedInto buffer)]
  rfl

theorem answerBuffer (s : Nina) (buffer inputCmd : List Byte) :
    Nina.answer { s with inputBuffer := buffer } inputCmd = s.answer inputCmd := by
  unfold Nina.answer
  rw [parseCmdBuffer]
  rfl

theorem receiveCommand (mode : s.operatingMode = .command) (empty : s.inputBuffer = []) {inputCmd : List Byte}
    (dots : inputCmd.all dot = true) : s.receive (ascii "AT" ++ inputCmd ++ [cr]) = s.answer inputCmd := by
  have unended : cr ∉ ascii "AT" ++ inputCmd := by
    rw [List.mem_append]
    rintro (start | inside)
    · exact absurd start (by decide)
    · exact dotsPlain dots inside
  have holds := (holdsCommandAt (ascii "AT" ++ inputCmd)).mpr ⟨inputCmd, dots, rfl⟩
  rw [receiveAppend, receiveOpen mode unended, empty, List.nil_append]
  have two : (ascii "AT").length = 2 := rfl
  have text : ((ascii "AT" ++ inputCmd ++ [cr]).drop 2).dropLast = inputCmd := by
    rw [List.append_assoc, ← two, List.drop_left, List.dropLast_concat]
  obtain ⟨operatingMode, localName, size, cfg, buffer, sent⟩ := s
  obtain rfl : operatingMode = .command := mode
  unfold Nina.receive Nina.rxHandleByte
  dsimp only [List.foldl_cons, List.foldl_nil]
  rw [if_pos rfl, if_pos holds, text]
  exact answerBuffer ⟨.command, localName, size, cfg, buffer, sent⟩ _ _

theorem receiveShort (mode : s.operatingMode = .data) (short : s.inputBuffer.length + bytes.length < s.loopbackSize) :
    s.receive bytes = { s with inputBuffer := s.inputBuffer ++ bytes } := by
  induction bytes generalizing s with
  | nil => simp [Nina.receive]
  | cons byte rest ih =>
      rw [List.length_cons] at short
      have kept : s.rxHandleByte byte = { s with inputBuffer := s.inputBuffer ++ [byte] } := by
        rw [handleData mode, if_neg (by omega)]
      have later := ih (s := s.rxHandleByte byte) (by rw [kept]; exact mode) (by rw [kept]; simp; omega)
      unfold Nina.receive at later ⊢
      rw [List.foldl_cons, later, kept]
      simp

theorem receiveBlock (mode : s.operatingMode = .data) (empty : s.inputBuffer = []) (positive : 0 < s.loopbackSize)
    (full : bytes.length = s.loopbackSize) : s.receive bytes = { s with sent := s.sent ++ bytes, inputBuffer := [] } := by
  obtain ⟨front, last, rfl⟩ : ∃ front last, bytes = front ++ [last] := by
    refine ⟨bytes.dropLast, bytes.getLast (by rintro rfl; simp at full; omega), ?_⟩
    rw [List.dropLast_concat_getLast]
  rw [List.length_append, List.length_singleton] at full
  have before := @receiveShort s front mode (by rw [empty, List.length_nil]; omega)
  rw [empty, List.nil_append] at before
  have at_end : ({ s with inputBuffer := front } : Nina).rxHandleByte last =
      { s with sent := s.sent ++ (front ++ [last]), inputBuffer := [] } := by
    rw [handleData (s := { s with inputBuffer := front }) mode, if_pos (by dsimp only; omega)]
    rfl
  rw [receiveAppend, before]
  exact at_end

theorem receiveBlocks {blocks : List (List Byte)} (mode : s.operatingMode = .data) (empty : s.inputBuffer = [])
    (positive : 0 < s.loopbackSize) (full : ∀ block ∈ blocks, block.length = s.loopbackSize) (few : bytes.length < s.loopbackSize) :
    s.receive (blocks.flatten ++ bytes) = { s with sent := s.sent ++ blocks.flatten, inputBuffer := bytes } := by
  induction blocks generalizing s with
  | nil =>
      have short := @receiveShort s bytes mode (by rw [empty, List.length_nil]; omega)
      rw [empty, List.nil_append] at short
      simpa using short
  | cons block rest ih =>
      rw [List.flatten_cons, List.append_assoc, receiveAppend, receiveBlock mode empty positive (full block (by simp))]
      have later := ih (s := { s with sent := s.sent ++ block, inputBuffer := [] }) mode rfl positive
        (fun block member => full block (List.mem_cons_of_mem _ member)) few
      rw [later, List.append_assoc]

theorem blocksOf {size : Nat} (positive : 0 < size) (bytes : List Byte) :
    ∃ blocks rest, bytes = List.flatten blocks ++ rest ∧ (∀ block ∈ blocks, block.length = size) ∧ rest.length < size := by
  induction length : bytes.length using Nat.strong_induction_on generalizing bytes with
  | _ n ih =>
      by_cases few : bytes.length < size
      · exact ⟨[], bytes, rfl, by simp, few⟩
      · obtain ⟨blocks, rest, shape, full, short⟩ := ih (bytes.drop size).length (by simp; omega) (bytes.drop size) rfl
        refine ⟨bytes.take size :: blocks, rest, ?_, ?_, short⟩
        · rw [List.flatten_cons, List.append_assoc, ← shape, List.take_append_drop]
        · intro block member
          rcases List.mem_cons.mp member with rfl | inside
          · rw [List.length_take]
            omega
          · exact full block inside

end Receive

section Served

variable {s t : Nina} {bytes : List Byte}

theorem rs232Kept (s : Nina) (inputCmd : List Byte) : (s.rs232Cmd inputCmd).1.loopbackSize = s.loopbackSize ∧
    (s.rs232Cmd inputCmd).1.operatingMode = s.operatingMode ∧ (s.rs232Cmd inputCmd).1.sent = s.sent := by
  unfold Nina.rs232Cmd
  split
  · exact ⟨rfl, rfl, rfl⟩
  · dsimp only
    split <;> exact ⟨rfl, rfl, rfl⟩

theorem parseCmdCases (s : Nina) (inputCmd : List Byte) :
    (s.parseCmd inputCmd).1 = s ∨ (s.parseCmd inputCmd).1 = s.operatingModeCmd inputCmd ∨
      (s.parseCmd inputCmd).1 = (s.rs232Cmd inputCmd).1 := by
  unfold Nina.parseCmd
  simp only [apply_ite Prod.fst]
  split_ifs <;> simp

theorem answerSize (s : Nina) (inputCmd : List Byte) : (s.answer inputCmd).loopbackSize = s.loopbackSize := by
  have parsed : (s.parseCmd inputCmd).1.loopbackSize = s.loopbackSize := by
    rcases parseCmdCases s inputCmd with same | mode | params
    · rw [same]
    · rw [mode]
      unfold Nina.operatingModeCmd
      split
      · rfl
      · split <;> rfl
    · rw [params]
      exact (rs232Kept s inputCmd).1
  exact parsed

theorem servedReceive (served : Served s bytes t) (empty : s.inputBuffer = []) (positive : 0 < s.loopbackSize) : s.receive bytes = t := by
  induction served with
  | part mode unended =>
      rw [receiveOpen mode unended, empty, List.nil_append]
  | @command s t inputCmd rest mode dots later ih =>
      have shape : ascii "AT" ++ inputCmd ++ cr :: rest = ascii "AT" ++ inputCmd ++ [cr] ++ rest := by simp
      rw [shape, receiveAppend, receiveCommand mode empty dots]
      exact ih rfl (by rw [answerSize]; exact positive)
  | @other s line rest mode first other =>
      have shape : line ++ cr :: rest = line ++ ([cr] ++ rest) := rfl
      have kept : ({ s with inputBuffer := line } : Nina).rxHandleByte cr = { s with inputBuffer := line ++ [cr] } := by
        refine handleKept (s := { s with inputBuffer := line }) mode fun _ => ?_
        rw [← Bool.not_eq_true, holdsCommandAt]
        rintro ⟨inputCmd, dots, same⟩
        exact other inputCmd dots same
      have one : s.receive (line ++ [cr]) = { s with inputBuffer := line ++ [cr] } := by
        rw [receiveAppend, receiveOpen mode first, empty, List.nil_append]
        exact kept
      rw [shape, ← List.append_assoc, receiveAppend, one, receiveStuck (s := { s with inputBuffer := line ++ [cr] }) mode (by simp) rest]
  | data mode full few => exact receiveBlocks mode empty positive full few

theorem servedTotal (positive : 0 < s.loopbackSize) (bytes : List Byte) : ∃ t, Served s bytes t := by
  induction length : bytes.length using Nat.strong_induction_on generalizing s bytes with
  | _ n ih =>
      cases mode : s.operatingMode with
      | data =>
          obtain ⟨blocks, rest, rfl, full, few⟩ := blocksOf positive bytes
          exact ⟨_, .data mode full few⟩
      | command =>
          by_cases ended : cr ∈ bytes
          · obtain ⟨line, rest, rfl, first⟩ := List.eq_append_cons_of_mem ended
            by_cases command : ∃ inputCmd, inputCmd.all dot = true ∧ line = ascii "AT" ++ inputCmd
            · obtain ⟨inputCmd, dots, rfl⟩ := command
              obtain ⟨t, later⟩ := ih rest.length (by simp at length; omega) (s := s.answer inputCmd)
                (by rw [answerSize]; exact positive) rest rfl
              exact ⟨t, .command mode dots later⟩
            · exact ⟨_, .other mode first fun inputCmd dots same => command ⟨inputCmd, dots, same⟩⟩
          · exact ⟨_, .part mode ended⟩

/- The relation says what the module does with any bytes. -/
theorem receiveServed (empty : s.inputBuffer = []) (positive : 0 < s.loopbackSize) (bytes : List Byte) (t : Nina) :
    s.receive bytes = t ↔ Served s bytes t := by
  constructor
  · rintro rfl
    obtain ⟨t, served⟩ := servedTotal positive bytes
    rw [servedReceive served empty positive]
    exact served
  · exact fun served => servedReceive served empty positive

/- The module goes to the data mode, and what follows comes back in blocks of 200 bytes. -/
theorem receiveServedMode : Served (build none) (ascii "ATO0" ++ cr :: ascii "AT")
    ((build none).receive (ascii "ATO0" ++ cr :: ascii "AT")) := (receiveServed rfl (by decide) _ _).mp rfl

end Served

section Supported

variable {cfg new : UartCfg} {arg : List Byte} {args : List (List Byte)} {i : Nat} {now : Bool}

structure Supported (cfg : UartCfg) : Prop where
  baudrate : cfg.baudrate ∈ [19200, 38400, 57600, 115200, 230400, 460800, 1000000]
  dataBits : cfg.dataBits = 8
  stopBits : cfg.stopBits = 1

theorem argumentCases {read : UartCfg → List Byte → Option UartCfg} (done : argument read args i cfg = some new) :
    cfg = new ∨ ∃ arg, read cfg arg = some new := by
  unfold argument at done
  cases found : args[i]? with
  | none =>
      rw [found] at done
      exact .inl (Option.some.inj done)
  | some arg =>
      rw [found] at done
      exact .inr ⟨arg, done⟩

theorem baudrateSupported (supported : Supported cfg) (done : baudrateArg cfg arg = some new) : Supported new := by
  obtain ⟨listed, same⟩ := Option.ite_none_right_eq_some.mp done
  cases same
  refine ⟨?_, supported.dataBits, supported.stopBits⟩
  have table : ∀ arg ∈ supportedBaudrates, (CText.atoi arg).toNat ∈ [19200, 38400, 57600, 115200, 230400, 460800, 1000000] := by
    decide +kernel
  exact table arg listed

theorem flowControlSupported (supported : Supported cfg) (done : flowControlArg cfg arg = some new) : Supported new := by
  unfold flowControlArg at done
  split at done
  · cases done
    exact ⟨supported.baudrate, supported.dataBits, supported.stopBits⟩
  · obtain ⟨-, same⟩ := Option.ite_none_right_eq_some.mp done
    cases same
    exact ⟨supported.baudrate, supported.dataBits, supported.stopBits⟩

theorem dataBitsSupported (supported : Supported cfg) (done : dataBitsArg cfg arg = some new) : Supported new := by
  obtain ⟨-, same⟩ := Option.ite_none_right_eq_some.mp done
  cases same
  exact ⟨supported.baudrate, rfl, supported.stopBits⟩

theorem stopBitsSupported (supported : Supported cfg) (done : stopBitsArg cfg arg = some new) : Supported new := by
  obtain ⟨-, same⟩ := Option.ite_none_right_eq_some.mp done
  cases same
  exact ⟨supported.baudrate, supported.dataBits, rfl⟩

theorem paritySupported (supported : Supported cfg) (done : parityArg cfg arg = some new) : Supported new := by
  unfold parityArg at done
  split at done
  · cases done
    exact ⟨supported.baudrate, supported.dataBits, supported.stopBits⟩
  · obtain ⟨-, same⟩ := Option.ite_none_right_eq_some.mp done
    cases same
    exact ⟨supported.baudrate, supported.dataBits, supported.stopBits⟩

theorem argumentSupported {read : UartCfg → List Byte → Option UartCfg} (supported : Supported cfg)
    (keeps : ∀ cfg arg new, Supported cfg → read cfg arg = some new → Supported new)
    (done : argument read args i cfg = some new) : Supported new := by
  rcases argumentCases done with rfl | ⟨arg, read⟩
  · exact supported
  · exact keeps cfg arg new supported read

theorem rs232Supported (supported : Supported cfg) (done : rs232Params cfg args = some (new, now)) : Supported new := by
  unfold rs232Params at done
  simp only [bind, Option.bind_eq_some_iff] at done
  obtain ⟨one, first, two, second, three, third, four, fourth, five, fifth, change, -, last⟩ := done
  cases last
  have h1 := argumentSupported supported (fun _ _ _ => baudrateSupported) first
  have h2 := argumentSupported h1 (fun _ _ _ => flowControlSupported) second
  have h3 := argumentSupported h2 (fun _ _ _ => dataBitsSupported) third
  have h4 := argumentSupported h3 (fun _ _ _ => stopBitsSupported) fourth
  exact argumentSupported h4 (fun _ _ _ => paritySupported) fifth

theorem parseCmdSupported {s : Nina} (supported : Supported s.uartCfg) (inputCmd : List Byte) :
    Supported (s.parseCmd inputCmd).1.uartCfg := by
  rcases parseCmdCases s inputCmd with same | mode | params
  · rw [same]
    exact supported
  · rw [mode]
    unfold Nina.operatingModeCmd
    split
    · exact supported
    · split <;> exact supported
  · rw [params]
    unfold Nina.rs232Cmd
    split
    · exact supported
    · rename_i new now done
      cases now
      · exact supported
      · exact rs232Supported supported done

theorem handleSupported {s : Nina} (supported : Supported s.uartCfg) (byte : Byte) : Supported (s.rxHandleByte byte).uartCfg := by
  unfold Nina.rxHandleByte
  dsimp only
  split
  · split
    · split
      · exact parseCmdSupported (s := { s with inputBuffer := s.inputBuffer ++ [byte] }) supported _
      · exact supported
    · exact supported
  · split <;> exact supported

theorem receiveSupported {s : Nina} (supported : Supported s.uartCfg) (bytes : List Byte) : Supported (s.receive bytes).uartCfg := by
  induction bytes generalizing s with
  | nil => exact supported
  | cons byte rest ih => exact ih (handleSupported supported byte)

theorem printedRead (old : UartCfg) (supported : Supported cfg) :
    rs232Params old (split (ch ',') (printedParams cfg ++ ascii ",1")) = some (cfg, true) := by
  obtain ⟨baudrate, data, stop, parity, flow⟩ := cfg
  obtain ⟨listed, rfl, rfl⟩ := supported
  dsimp only at listed
  have pieces : ∀ rate ∈ [19200, 38400, 57600, 115200, 230400, 460800, 1000000], ∀ flow : Bool, ∀ even : Bool,
      split (ch ',') (printedParams ⟨rate, 8, 1, if even then .even else .none, flow⟩ ++ ascii ",1") =
        [decimal rate, if flow then ascii "1" else ascii "2", ascii "8", ascii "1", if even then ascii "3" else ascii "1", ascii "1"] ∧
      decimal rate ∈ supportedBaudrates ∧ (CText.atoi (decimal rate)).toNat = rate := by
    decide +kernel
  have shape : parity = if decide (parity = UartParity.even) = true then .even else .none := by cases parity <;> rfl
  obtain ⟨split, member, value⟩ := pieces baudrate listed flow (decide (parity = .even))
  rw [← shape] at split
  rw [split]
  unfold rs232Params argument
  simp only [List.getElem?_cons_zero, List.getElem?_cons_succ, Option.elim_some, baudrateArg, if_pos member, value]
  cases flow <;> cases parity <;> rfl

theorem paramsPrinted (s : Nina) : s.parseCmd (ascii "+UMRS?") = (s, okResponse (ascii "+URMS:" ++ printedParams s.uartCfg)) := by
  rfl

theorem paramsCommand (reader : Nina) {text : List Byte} (dots : text.all dot = true) :
    reader.parseCmd (ascii "+UMRS=" ++ text) = reader.rs232Cmd (ascii "+UMRS=" ++ text) := by
  have taken : matchesAll "+UMRS=" (ascii "+UMRS=" ++ text) = true := by
    rw [matchesAll, List.drop_left, dots]
    rfl
  have echo : matchesOne "E" ['0', '1'] (ascii "+UMRS=" ++ text) = false := rfl
  have mode : (ascii "+UMRS=" ++ text = ascii "O" || matchesOne "O" ['0', '1', '2'] (ascii "+UMRS=" ++ text)) = false := rfl
  have unbond : matchesAll "+UBTUB=" (ascii "+UMRS=" ++ text) = false := rfl
  have role : matchesOne "+UBTLE=" ['0', '1', '2', '3'] (ascii "+UMRS=" ++ text) = false := rfl
  have name : matchesAll "+UBTLN=" (ascii "+UMRS=" ++ text) = false := rfl
  have differs : ∀ other, (ascii "+UMRS=").isPrefixOf other = false → ascii "+UMRS=" ++ text ≠ other := by
    rintro other start rfl
    exact absurd (List.isPrefixOf_iff_prefix.mpr (List.prefix_append _ _)) (start ▸ Bool.false_ne_true)
  unfold Nina.parseCmd
  simp only [taken, echo, mode, unbond, role, name, if_true, Bool.false_eq_true, if_false]
  rw [if_neg (differs [] rfl), if_neg (differs (ascii "+UFACTORY") rfl), if_neg (differs (ascii "+UBTLN?") rfl)]

theorem printedDots (supported : Supported cfg) : (printedParams cfg ++ ascii ",1").all dot = true := by
  obtain ⟨baudrate, data, stop, parity, flow⟩ := cfg
  obtain ⟨listed, rfl, rfl⟩ := supported
  dsimp only at listed
  have all : ∀ rate ∈ [19200, 38400, 57600, 115200, 230400, 460800, 1000000], ∀ flow : Bool, ∀ parity : UartParity,
      (printedParams ⟨rate, 8, 1, parity, flow⟩ ++ ascii ",1").all dot = true := by
    intro rate member flow parity
    cases parity <;> revert rate flow <;> decide +kernel
  exact all baudrate listed flow parity

theorem printedSet (reader : Nina) (supported : Supported cfg) :
    reader.parseCmd (ascii "+UMRS=" ++ (printedParams cfg ++ ascii ",1")) = ({ reader with uartCfg := cfg }, okResponse []) := by
  have dropped : (ascii "+UMRS=" ++ (printedParams cfg ++ ascii ",1")).drop 6 = printedParams cfg ++ ascii ",1" := rfl
  rw [paramsCommand reader (printedDots supported), Nina.rs232Cmd, dropped, printedRead reader.uartCfg supported]
  rfl

/- Whatever the module receives, its line has parameters it supports, and the list it prints for them is one that a module takes over. -/
theorem paramsReadBack (behavior : Option (Option Int)) (bytes : List Byte) (reader : Nina) :
    let printer := (build behavior).receive bytes
    Supported printer.uartCfg ∧
      printer.parseCmd (ascii "+UMRS?") = (printer, okResponse (ascii "+URMS:" ++ printedParams printer.uartCfg)) ∧
      reader.parseCmd (ascii "+UMRS=" ++ (printedParams printer.uartCfg ++ ascii ",1")) =
        ({ reader with uartCfg := printer.uartCfg }, okResponse []) := by
  intro printer
  have supported : Supported printer.uartCfg := receiveSupported ⟨by simp [build], rfl, rfl⟩ bytes
  exact ⟨supported, paramsPrinted printer, printedSet reader supported⟩

end Supported

end Gvsoc.NinaSession
