import Gvsoc.Proxy

/-! What holds in every state of the proxy: which messages are behind the bytes, and what the callers wait for. The server gets
the calls one after the other, and its messages go to the reader of the client. -/
namespace Gvsoc.Proxy
open Bytes (Byte)
open CText (ch ascii starts)
open ProxyText
open ProxyReader (Reader Message found)

variable {σ ι : Type} {top : Top σ}

section Play

variable {s t : σ} {calls : List Call} {ops : List Op} {answers : List Answer}

theorem playNext {c : Call} : play top s (c :: calls) (.command :: ops) = some (t, answers) ↔
    ∃ u answer rest, execute top s (words (c.cmd ++ [lf])) c.bytes = some (u, answer) ∧ play top u calls ops = some (t, rest) ∧
      answers = answer :: rest := by
  simp only [play, Option.bind_eq_bind, Option.bind_eq_some_iff, Prod.exists, Option.some.injEq, Prod.mk.injEq]
  constructor
  · rintro ⟨u, answer, done, last, rest, later, rfl, rfl⟩
    exact ⟨u, answer, rest, done, later, rfl⟩
  · rintro ⟨u, answer, rest, done, later, rfl⟩
    exact ⟨u, answer, done, t, rest, later, rfl, rfl⟩

@[simp] theorem playMove : play top s calls (.advance :: ops) = play top (top.advance s) calls ops := by
  cases calls <;> rfl

@[simp] theorem playEnd : play top s calls [] = some (s, []) := by
  cases calls <;> rfl

theorem playMore (more : List Call) (played : play top s calls ops = some (t, answers)) : play top s (calls ++ more) ops = some (t, answers) := by
  induction ops generalizing s calls answers with
  | nil => simpa using played
  | cons op ops ih =>
      cases op with
      | advance =>
          rw [playMove] at played ⊢
          exact ih played
      | command =>
          cases calls with
          | nil => contradiction
          | cons c calls =>
              obtain ⟨u, answer, rest, done, later, rfl⟩ := playNext.mp played
              exact playNext.mpr ⟨u, answer, rest, done, ih later, rfl⟩

theorem playCount (played : play top s calls ops = some (t, answers)) : answers.length ≤ calls.length := by
  induction ops generalizing s calls answers with
  | nil =>
      rw [playEnd] at played
      cases played
      exact Nat.zero_le _
  | cons op ops ih =>
      cases op with
      | advance =>
          rw [playMove] at played
          exact ih played
      | command =>
          cases calls with
          | nil => contradiction
          | cons c calls =>
              obtain ⟨u, answer, rest, -, later, rfl⟩ := playNext.mp played
              exact Nat.succ_le_succ (ih later)

theorem playAdvance (played : play top s calls ops = some (t, answers)) :
    play top s calls (ops ++ [.advance]) = some (top.advance t, answers) := by
  induction ops generalizing s calls answers with
  | nil =>
      rw [playEnd] at played
      cases played
      rw [List.nil_append, playMove, playEnd]
  | cons op ops ih =>
      rw [List.cons_append]
      cases op with
      | advance =>
          rw [playMove] at played ⊢
          exact ih played
      | command =>
          cases calls with
          | nil => contradiction
          | cons c calls =>
              obtain ⟨u, answer, rest, done, later, rfl⟩ := playNext.mp played
              exact playNext.mpr ⟨u, answer, rest, done, ih later, rfl⟩

theorem playCommand {c : Call} {u : σ} {answer : Answer} (played : play top s calls ops = some (t, answers))
    (next : calls[answers.length]? = some c) (done : execute top t (words (c.cmd ++ [lf])) c.bytes = some (u, answer)) :
    play top s calls (ops ++ [.command]) = some (u, answers ++ [answer]) := by
  induction ops generalizing s calls answers with
  | nil =>
      rw [playEnd] at played
      cases played
      cases calls with
      | nil => contradiction
      | cons first calls =>
          cases next
          exact playNext.mpr ⟨u, answer, [], done, playEnd, rfl⟩
  | cons op ops ih =>
      rw [List.cons_append]
      cases op with
      | advance =>
          rw [playMove] at played ⊢
          exact ih played next
      | command =>
          cases calls with
          | nil => contradiction
          | cons first calls =>
              obtain ⟨v, other, rest, before, later, rfl⟩ := playNext.mp played
              rw [List.length_cons, List.getElem?_cons_succ] at next
              exact playNext.mpr ⟨v, other, rest ++ [answer], before, ih later next, rfl⟩

end Play

section Lists

variable {α : Type} {list : List α} {n : Nat} {a b : α}

theorem foundConcat (there : (list ++ [a])[n]? = some b) : list[n]? = some b ∨ (n = list.length ∧ b = a) := by
  rcases Nat.lt_or_ge n list.length with before | after
  · rw [List.getElem?_append_left before] at there
    exact .inl there
  · rw [List.getElem?_append_right after, List.getElem?_singleton] at there
    obtain ⟨last, same⟩ := Option.ite_none_right_eq_some.mp there
    exact .inr ⟨by omega, (Option.some.inj same).symm⟩

theorem foundMore (more : List α) (there : list[n]? = some b) : (list ++ more)[n]? = some b := by
  rw [List.getElem?_append_left (List.getElem?_eq_some_iff.mp there).1]
  exact there

end Lists

section Invariant

def Caller.unsent : Caller → List Byte
  | .values _ bytes => bytes
  | _ => []

def unsent (lock : Option ι) (callers : ι → Caller) : List Byte := lock.elim [] fun i => (callers i).unsent

def requests (k : Nat) (calls : List Call) : List Byte := (calls.zipIdx.drop k).flatMap fun c => commandLine c.2 c.1.cmd ++ c.1.bytes

structure View where
  answers : List Answer
  outbox : List (Channel × Message)
  held : List Message
  wire : List Message

def From (answers : List Answer) (channel : Channel) : Message → Prop
  | .reply n msg => ∃ answer, answers[n]? = some answer ∧ answer.reply = some (channel, msg)
  | .payload n bytes => channel = .flush ∧ ∃ answer, answers[n]? = some answer ∧ answer.payload = some bytes
  | _ => False

def noteOf : Message → Option (Bool × Int)
  | .running time => some (true, time)
  | .stopped time => some (false, time)
  | _ => none

def Answer.Reads (answer : Answer) (text : List Byte) : Prop :=
  (∃ reply, answer.reply = some reply ∧ text = found reply.2) ∨ (answer.payload.isSome = true ∧ text = [])

structure Requests (top : Top σ) (first : σ) (h : History) (t : σ) (reqId : Nat) (input : List Byte) (answers : List Answer) : Prop where
  played : play top first h.calls h.ops = some (t, answers)
  counted : reqId = h.calls.length
  short : ∀ n c, h.calls[n]? = some c → (commandLine n c.cmd).length ≤ 1023
  kinds : ∀ (n : Nat) (c : Call) (answer : Answer), h.calls[n]? = some c → answers[n]? = some answer → (answer.payload.isSome = true ↔ c = .payload c.cmd)
  input : input = requests answers.length h.calls

structure Replies (server : Server) (toClient : List Byte) (reader : Reader) (v : View) : Prop where
  plain : ∀ answer ∈ v.answers, ∀ channel msg, answer.reply = some (channel, some msg) → ProxyReader.plain msg = true
  outbox : server.outbox = v.outbox.map fun m => (m.1, m.2.text)
  unflushed : server.unflushed = v.held.flatMap Message.text
  output : toClient ++ server.cut = v.wire.flatMap Message.text
  sends : ∀ m ∈ v.outbox, From v.answers m.1 m.2
  held : ∀ m ∈ v.held, From v.answers .keep m
  carries : ∀ m ∈ v.wire, (noteOf m).isSome = true ∨ ∃ channel, From v.answers channel m
  alive : reader.alive = true
  replies : ∀ (n : Nat) text, reader.replies n = some text → ∃ answer, v.answers[n]? = some answer ∧ answer.Reads text
  payloads : ∀ (n : Nat) bytes, reader.payloads n = some bytes → ∃ answer, v.answers[n]? = some answer ∧ answer.payload = some bytes

def Asked (calls : List Call) (answers : List Answer) : Caller → Prop
  | .idle => True
  | .values n _ => ∃ cmd bytes, calls[n]? = some (.values cmd bytes)
  | .payload n => ∃ cmd, calls[n]? = some (.payload cmd)
  | .reply n none => ∃ cmd, calls[n]? = some (.plain cmd)
  | .reply n (some kept) => (kept = [] ∧ ∃ cmd bytes, calls[n]? = some (.values cmd bytes)) ∨
      ∃ cmd answer, calls[n]? = some (.payload cmd) ∧ answers[n]? = some answer ∧ answer.payload = some kept

structure Callers (h : History) (callers : ι → Caller) (lock : Option ι) (answers : List Answer) : Prop where
  asked : ∀ i, Asked h.calls answers (callers i)
  apart : ∀ i j n, (callers i).waits = some n → (callers j).waits = some n → i = j
  locked : ∀ i, (callers i).locks = true ↔ lock = some i
  returned : ∀ n value, (n, value) ∈ h.returned →
    ∃ c answer, h.calls[n]? = some c ∧ answers[n]? = some answer ∧ c.value answer = some value
  once : (h.returned.map Prod.fst).Nodup
  unreturned : ∀ i n, (callers i).waits = some n → n ∉ h.returned.map Prod.fst
  covered : ∀ n < h.calls.length, n ∈ h.returned.map Prod.fst ∨ ∃ i, (callers i).waits = some n

/- What a caller waits for comes, if it was not left in the stream of the replies. -/
def ReplyComes (reader : Reader) (v : View) (n : Nat) : Prop :=
  ∀ answer channel msg, v.answers[n]? = some answer → answer.reply = some (channel, msg) → channel ≠ .keep →
    (channel, Message.reply n msg) ∈ v.outbox ∨ Message.reply n msg ∈ v.wire ∨ (reader.replies n).isSome = true

def PayloadComes (reader : Reader) (v : View) (n : Nat) : Prop :=
  ∀ answer bytes, v.answers[n]? = some answer → answer.payload = some bytes →
    (.flush, Message.payload n bytes) ∈ v.outbox ∨ Message.payload n bytes ∈ v.wire ∨ (reader.payloads n).isSome = true

structure Comes (callers : ι → Caller) (reader : Reader) (v : View) : Prop where
  reply : ∀ i n, (callers i).waits = some n → ReplyComes reader v n
  payload : ∀ i n, callers i = .payload n → PayloadComes reader v n

def see (known : Bool × Int) (told : Bool × Int) : Bool × Int := (told.1, if told.1 then known.2 else told.2)

def Noted (h : History) (reader : Reader) (wire : List Message) : Prop :=
  ∃ seen, h.notified = seen ++ wire.filterMap noteOf ∧ (reader.running, reader.timestamp) = seen.foldl see (false, 0)

structure Holds (top : Top σ) (first : σ) (h : History) (s : Link σ ι) (v : View) : Prop where
  requests : Requests top first h s.top s.reqId (s.toServer ++ unsent s.lock s.callers) v.answers
  replies : Replies s.server s.toClient s.reader v
  callers : Callers h s.callers s.lock v.answers
  comes : Comes s.callers s.reader v
  noted : Noted h s.reader v.wire

end Invariant

section Steps

variable [DecidableEq ι] {s next : Link σ ι} {i : ι}

theorem sendCmdCases {c : Call} (taken : s.sendCmd i c = some next) : s.callers i = .idle ∧ s.lock = none ∧ next = { s with
    reqId := s.reqId + 1
    toServer := s.toServer ++ commandLine s.reqId c.cmd
    lock := if (c.caller s.reqId).locks then some i else none
    callers := Function.update s.callers i (c.caller s.reqId) } := by
  obtain ⟨⟨idle, free⟩, done⟩ := Option.ite_none_right_eq_some.mp taken
  exact ⟨idle, free, (Option.some.inj done).symm⟩

theorem sendValuesCases (taken : s.sendValues i = some next) : ∃ req bytes, s.callers i = .values req bytes ∧ next = { s with
    toServer := s.toServer ++ bytes
    lock := none
    callers := Function.update s.callers i (.reply req (some [])) } := by
  unfold Link.sendValues at taken
  split at taken
  · rename_i req bytes at_values
    cases taken
    exact ⟨req, bytes, at_values, rfl⟩
  · contradiction

theorem getPayloadCases (taken : s.getPayload i = some next) : ∃ req payload, s.callers i = .payload req ∧
    s.reader.payloads req = some payload ∧ next = { s with
      reader := { s.reader with payloads := Function.update s.reader.payloads req none }
      lock := none
      callers := Function.update s.callers i (.reply req (some payload)) } := by
  unfold Link.getPayload at taken
  split at taken
  · rename_i req at_payload
    obtain ⟨payload, there, done⟩ := Option.map_eq_some_iff.mp taken
    exact ⟨req, payload, at_payload, there, done.symm⟩
  · contradiction

theorem waitReplyCases {req : Nat} {value : List Byte} (taken : s.waitReply i req value = some next) : ∃ kept reply,
    s.callers i = .reply req kept ∧ s.reader.replies req = some reply ∧ value = kept.getD reply ∧ next = { s with
      reader := { s.reader with replies := Function.update s.reader.replies req none }
      callers := Function.update s.callers i .idle } := by
  unfold Link.waitReply at taken
  split at taken
  · rename_i own kept at_reply
    obtain ⟨reply, there, checked⟩ := Option.bind_eq_some_iff.mp taken
    obtain ⟨⟨same, back⟩, done⟩ := Option.ite_none_right_eq_some.mp checked
    subst same
    exact ⟨kept, reply, at_reply, there, back.symm, (Option.some.inj done).symm⟩
  · contradiction

end Steps

section Requests

variable {calls : List Call} {c : Call} {k : Nat}

theorem requestsNext (next : calls[k]? = some c) : requests k calls = commandLine k c.cmd ++ (c.bytes ++ requests (k + 1) calls) := by
  obtain ⟨inside, here⟩ := List.getElem?_eq_some_iff.mp next
  have index : k < calls.zipIdx.length := by rwa [List.length_zipIdx]
  unfold requests
  rw [List.drop_eq_getElem_cons index, List.flatMap_cons, List.getElem_zipIdx, here, Nat.zero_add, List.append_assoc]

theorem requestsEnd (short : calls.length ≤ k) : requests k calls = [] := by
  unfold requests
  rw [List.drop_of_length_le (by rwa [List.length_zipIdx])]
  rfl

theorem requestsMore (c : Call) (inside : k ≤ calls.length) :
    requests k (calls ++ [c]) = requests k calls ++ (commandLine calls.length c.cmd ++ c.bytes) := by
  unfold requests
  rw [List.zipIdx_append, List.drop_append_of_le_length (by rwa [List.length_zipIdx]), List.flatMap_append]
  simp

variable {first : σ} {h : History} {s next : Link σ ι} {answers : List Answer}

theorem serveNext (holds : Requests top first h s.top s.reqId (s.toServer ++ unsent s.lock s.callers) answers)
    (proper : ∀ c ∈ h.calls, Proper top c) (taken : s.serve top = some next) :
    s.server.outbox = [] ∧ s.server.cut = [] ∧ ∃ c answer rest, h.calls[answers.length]? = some c ∧
      execute top s.top (words (c.cmd ++ [lf])) c.bytes = some (next.top, answer) ∧
      (answer.payload.isSome = true ↔ c = .payload c.cmd) ∧
      rest ++ unsent s.lock s.callers = requests (answers.length + 1) h.calls ∧
      next = { s with
        top := next.top
        toServer := rest
        server := { s.server with outbox := answer.texts (number 10 answers.length) } } := by
  unfold Link.serve at taken
  obtain ⟨⟨ready, whole⟩, taken⟩ := Option.ite_none_right_eq_some.mp taken
  obtain ⟨⟨line, rest⟩, read, taken⟩ := Option.bind_eq_some_iff.mp taken
  have known := fgetsMore (unsent s.lock s.callers) read
  rw [holds.input] at known
  have inside : answers.length < h.calls.length := by
    by_contra none
    rw [requestsEnd (by omega)] at known
    contradiction
  have here : h.calls[answers.length]? = some h.calls[answers.length] := List.getElem?_eq_getElem inside
  have good := proper _ (List.getElem_mem inside)
  generalize h.calls[answers.length] = c at here good
  rw [requestsNext here, fgetsCommand _ good.clear (holds.short _ _ here)] at known
  obtain ⟨rfl, left⟩ := Prod.mk.inj (Option.some.inj known)
  simp only [parseCommandLine _ good.clear, good.bytes, Option.bind_eq_bind] at taken
  obtain ⟨enough, taken⟩ := Option.ite_none_left_eq_some.mp taken
  obtain ⟨⟨t, answer⟩, done, taken⟩ := Option.bind_eq_some_iff.mp taken
  have own : rest.take c.bytes.length = c.bytes := by
    have front := congrArg (List.take c.bytes.length) left
    rw [List.take_left, List.take_append_of_le_length (by omega)] at front
    exact front.symm
  have others : rest.drop c.bytes.length ++ unsent s.lock s.callers = requests (answers.length + 1) h.calls := by
    have back := congrArg (List.drop c.bytes.length) left
    rw [List.drop_left, List.drop_append_of_le_length (by omega)] at back
    exact back.symm
  rw [own] at done
  obtain ⟨u, other, same, kind⟩ := good.served s.top
  rw [done] at same
  cases same
  cases taken
  exact ⟨ready, whole, c, answer, _, here, done, kind, others, rfl⟩

theorem requestsServe {c : Call} {answer : Answer} {rest : List Byte} {t : σ}
    (holds : Requests top first h s.top s.reqId (s.toServer ++ unsent s.lock s.callers) answers)
    (here : h.calls[answers.length]? = some c) (done : execute top s.top (words (c.cmd ++ [lf])) c.bytes = some (t, answer))
    (kind : answer.payload.isSome = true ↔ c = .payload c.cmd)
    (left : rest ++ unsent s.lock s.callers = requests (answers.length + 1) h.calls) :
    Requests top first { h with ops := h.ops ++ [.command] } t s.reqId (rest ++ unsent s.lock s.callers) (answers ++ [answer]) where
  played := playCommand holds.played here done
  counted := holds.counted
  short := holds.short
  kinds := by
    intro n d other at_call at_answer
    rcases foundConcat at_answer with before | ⟨rfl, rfl⟩
    · exact holds.kinds n d other at_call before
    · rw [here] at at_call
      cases at_call
      exact kind
  input := by rw [left, List.length_append, List.length_singleton]

theorem requestsAdvance {t : σ} {reqId : Nat} {input : List Byte} (holds : Requests top first h t reqId input answers) :
    Requests top first { h with ops := h.ops ++ [.advance] } (top.advance t) reqId input answers where
  played := playAdvance holds.played
  counted := holds.counted
  short := holds.short
  kinds := holds.kinds
  input := holds.input

theorem requestsCall {c : Call} {t : σ} {reqId : Nat} {input : List Byte} (holds : Requests top first h t reqId input answers)
    (short : (commandLine reqId c.cmd).length ≤ 1023) :
    Requests top first { h with calls := h.calls ++ [c] } t (reqId + 1) (input ++ (commandLine reqId c.cmd ++ c.bytes)) answers where
  played := playMore [c] holds.played
  counted := by rw [holds.counted, List.length_append, List.length_singleton]
  short := by
    intro n d found
    rcases foundConcat found with before | ⟨rfl, rfl⟩
    · exact holds.short n d before
    · rw [← holds.counted]
      exact short
  kinds := by
    intro n d answer at_call at_answer
    rcases foundConcat at_call with before | ⟨rfl, rfl⟩
    · exact holds.kinds n d answer before at_answer
    · have many := playCount holds.played
      have inside := (List.getElem?_eq_some_iff.mp at_answer).1
      omega
  input := by rw [requestsMore c (playCount holds.played), holds.input, holds.counted]

end Requests

section Unsent

variable [DecidableEq ι] {callers : ι → Caller} {lock : Option ι} {i : ι} {caller : Caller}

theorem unsentHeld : unsent (some i) (Function.update callers i caller) = caller.unsent := by
  unfold unsent
  rw [Option.elim_some, Function.update_self]

theorem unsentOther (free : lock ≠ some i) : unsent lock (Function.update callers i caller) = unsent lock callers := by
  unfold unsent
  cases lock with
  | none => rfl
  | some j =>
      have other : j ≠ i := fun same => free (congrArg some same)
      rw [Option.elim_some, Option.elim_some, Function.update_of_ne other]

theorem unsentCall (c : Call) (req : Nat) (callers : ι → Caller) :
    unsent (if (c.caller req).locks then some i else none) (Function.update callers i (c.caller req)) = c.bytes := by
  cases c with
  | plain cmd => rfl
  | values cmd bytes => exact unsentHeld
  | payload cmd => exact unsentHeld

end Unsent

section Plain

theorem startsNot (word : String) {c first : Byte} {more rest : List Byte} (begins : ascii word = first :: more) (other : first ≠ c) :
    starts word (c :: rest) = false := by
  unfold starts
  rw [begins, List.isPrefixOf_cons_cons]
  simp [other]

theorem plainOf {c : Byte} {rest : List Byte} (clear : (c :: rest).all clean = true) (stop : ch 's' ≠ c) (run : ch 'r' ≠ c) :
    ProxyReader.plain (c :: rest) = true := by
  unfold ProxyReader.plain
  rw [clear, List.cons_append, startsNot "stopped" rfl stop, startsNot "running" rfl run]
  rfl

theorem decimalPlain (n : Int) : ProxyReader.plain (decimal n) = true := by
  have clear := decimalClean n
  have digit : ∀ d < 10, ch 's' ≠ CText.hexDigit false d ∧ ch 'r' ≠ CText.hexDigit false d := by decide +kernel
  unfold decimal at clear ⊢
  by_cases negative : n < 0
  · rw [if_pos negative] at clear ⊢
    exact plainOf clear (by decide) (by decide)
  · rw [if_neg negative] at clear ⊢
    cases shape : number 10 n.natAbs with
    | nil => exact absurd shape (numberPositive 10 n.natAbs)
    | cons c rest =>
        have inside : c ∈ number 10 n.natAbs := by simp [shape]
        obtain ⟨d, below, rfl⟩ := numberDigit (by decide) inside
        rw [shape] at clear
        exact plainOf clear (digit d below).1 (digit d below).2

theorem pointerPlain (address : Nat) : ProxyReader.plain (pointer address) = true := by
  unfold pointer
  split
  · decide
  · have shape : hexadecimal address = ch '0' :: (ch 'x' :: number 16 address) := rfl
    have clear : (hexadecimal address).all clean = true := by
      unfold hexadecimal
      rw [List.all_append, numberClean 16 _ (by decide) (by decide)]
      decide
    rw [shape] at clear ⊢
    exact plainOf clear (by decide) (by decide)

def PlainResult (result : Option (σ × Answer)) : Prop :=
  ∀ t answer channel msg, result = some (t, answer) → answer.reply = some (channel, some msg) → ProxyReader.plain msg = true

theorem plainIte {p : Prop} [Decidable p] {one two : Option (σ × Answer)} (first : PlainResult one) (second : PlainResult two) :
    PlainResult (if p then one else two) := by
  split
  · exact first
  · exact second

theorem plainNone : PlainResult (none : Option (σ × Answer)) := by
  intro t answer channel msg done
  contradiction

theorem plainNothing (t : σ) : PlainResult (some (t, .nothing)) := by
  intro u answer channel msg done reply
  cases done
  contradiction

theorem plainBare (t : σ) (channel : Channel) : PlainResult (some (t, ⟨none, some (channel, none)⟩)) := by
  intro u answer other msg done reply
  cases done
  cases reply

theorem plainReply (t : σ) (payload : Option (List Byte)) {channel : Channel} {msg : List Byte} (good : ProxyReader.plain msg = true) :
    PlainResult (some (t, ⟨payload, some (channel, some msg)⟩)) := by
  intro u answer other same done reply
  cases done
  cases reply
  exact good

theorem executePlain (s : σ) (args : List (List Byte)) (raw : List Byte) : PlainResult (execute top s args raw) := by
  unfold execute
  split
  · exact plainNothing s
  rename_i word args
  refine plainIte (plainBare _ _) (plainIte ?step (plainIte (plainBare _ _) (plainIte ?quit (plainIte ?path (plainIte ?component
    (plainIte ?trace (plainIte ?event (plainNothing s))))))))
  case step =>
    split
    · exact plainReply _ _ (decimalPlain _)
    · exact plainNothing s
  case quit =>
    cases args with
    | nil => exact plainNone
    | cons status args => exact plainReply _ _ (by decide)
  case path =>
    cases args with
    | nil => exact plainNone
    | cons path args => exact plainReply _ _ (pointerPlain _)
  case component =>
    split
    · exact plainNone
    · intro t answer channel msg done reply
      obtain ⟨component, -, found⟩ := Option.bind_eq_some_iff.mp done
      obtain ⟨⟨u, payload, retval⟩, handled, last⟩ := Option.bind_eq_some_iff.mp found
      cases last
      cases reply
      exact component.plain handled
  case trace =>
    split
    · exact plainBare _ _
    · exact plainNothing s
  case event =>
    split
    · exact plainBare _ _
    · exact plainNothing s

end Plain

section Replies

variable {answers : List Answer} {channel : Channel} {m : Message} {server : Server} {toClient : List Byte} {reader : Reader} {v : View}

def Answer.messages (n : Nat) (answer : Answer) : List (Channel × Message) :=
  (answer.payload.toList.map fun bytes => (.flush, .payload n bytes)) ++ (answer.reply.toList.map fun reply => (reply.1, .reply n reply.2))

theorem messagesTexts (n : Nat) (answer : Answer) : answer.texts (number 10 n) = (answer.messages n).map fun m => (m.1, m.2.text) := by
  obtain ⟨payload, reply⟩ := answer
  unfold Answer.texts Answer.messages
  rw [List.map_append]
  congr 1
  · cases payload <;> rfl
  · cases reply with
    | none => rfl
    | some reply => simp [Message.text, Message.line, Message.bytes]

theorem fromMore (more : List Answer) (known : From answers channel m) : From (answers ++ more) channel m := by
  cases m with
  | reply n msg =>
      obtain ⟨answer, there, reply⟩ := known
      exact ⟨answer, foundMore more there, reply⟩
  | payload n bytes =>
      obtain ⟨way, answer, there, payload⟩ := known
      exact ⟨way, answer, foundMore more there, payload⟩
  | stopped time => exact known
  | running time => exact known

theorem messagesFrom {answer : Answer} {p : Channel × Message} (inside : p ∈ answer.messages answers.length) :
    From (answers ++ [answer]) p.1 p.2 := by
  have last : (answers ++ [answer])[answers.length]? = some answer := by simp
  unfold Answer.messages at inside
  rcases List.mem_append.mp inside with first | second
  · obtain ⟨bytes, here, rfl⟩ := List.mem_map.mp first
    exact ⟨rfl, answer, last, Option.mem_toList.mp here⟩
  · obtain ⟨reply, here, rfl⟩ := List.mem_map.mp second
    exact ⟨answer, last, Option.mem_toList.mp here⟩

theorem fromPlain (plain : ∀ answer ∈ answers, ∀ channel msg, answer.reply = some (channel, some msg) → ProxyReader.plain msg = true)
    (known : From answers channel m) : m.Plain := by
  cases m with
  | reply n msg =>
      cases msg with
      | none => trivial
      | some msg =>
          obtain ⟨answer, there, reply⟩ := known
          exact plain answer (List.mem_of_getElem? there) channel msg reply
  | payload n bytes => trivial
  | stopped time => trivial
  | running time => trivial

theorem notePlain (note : (noteOf m).isSome = true) : m.Plain := by
  cases m with
  | reply n msg => contradiction
  | payload n bytes => contradiction
  | stopped time => trivial
  | running time => trivial

theorem repliesServe {answer : Answer} (holds : Replies server toClient reader v)
    (plain : ∀ channel msg, answer.reply = some (channel, some msg) → ProxyReader.plain msg = true) :
    Replies { server with outbox := answer.texts (number 10 v.answers.length) } toClient reader
      { v with answers := v.answers ++ [answer], outbox := answer.messages v.answers.length } where
  plain := by
    intro other inside channel msg reply
    rcases List.mem_append.mp inside with before | last
    · exact holds.plain other before channel msg reply
    · obtain rfl := List.mem_singleton.mp last
      exact plain channel msg reply
  outbox := messagesTexts _ _
  unflushed := holds.unflushed
  output := holds.output
  sends := fun m inside => messagesFrom inside
  held := fun m inside => fromMore _ (holds.held m inside)
  carries := by
    intro m inside
    rcases holds.carries m inside with note | ⟨channel, known⟩
    · exact .inl note
    · exact .inr ⟨channel, fromMore _ known⟩
  alive := holds.alive
  replies := by
    intro n text there
    obtain ⟨answer, before, reads⟩ := holds.replies n text there
    exact ⟨answer, foundMore _ before, reads⟩
  payloads := by
    intro n bytes there
    obtain ⟨answer, before, payload⟩ := holds.payloads n bytes there
    exact ⟨answer, foundMore _ before, payload⟩

def View.write (v : View) : View :=
  match v.outbox with
  | [] => v
  | (.direct, m) :: rest => { v with outbox := rest, wire := v.wire ++ [m] }
  | (.keep, m) :: rest => { v with outbox := rest, held := v.held ++ [m] }
  | (_, m) :: rest => { v with outbox := rest, held := [], wire := v.wire ++ (v.held ++ [m]) }

theorem repliesFlush {rest : List (Channel × Message)} {outbox : List (Channel × List Byte)} {cut sent : List Byte}
    (holds : Replies server toClient reader v) (first : v.outbox = (channel, m) :: rest) (whole : server.cut = [])
    (left : outbox = rest.map fun m => (m.1, m.2.text)) (all : sent ++ cut = server.unflushed ++ m.text) :
    Replies ⟨outbox, cut, []⟩ (toClient ++ sent) reader { v with outbox := rest, held := [], wire := v.wire ++ (v.held ++ [m]) } where
  plain := holds.plain
  outbox := left
  unflushed := rfl
  output := by
    have before := holds.output
    rw [whole, List.append_nil] at before
    dsimp only
    rw [List.append_assoc, all, before, holds.unflushed, List.flatMap_append, List.flatMap_append, List.flatMap_singleton]
  sends := fun m inside => holds.sends m (by rw [first]; exact List.mem_cons_of_mem _ inside)
  held := fun m inside => absurd inside List.not_mem_nil
  carries := by
    intro other inside
    rcases List.mem_append.mp inside with before | new
    · exact holds.carries other before
    · rcases List.mem_append.mp new with kept | last
      · exact .inr ⟨.keep, holds.held other kept⟩
      · obtain rfl := List.mem_singleton.mp last
        exact .inr ⟨channel, holds.sends (channel, other) (by simp [first])⟩
  alive := holds.alive
  replies := holds.replies
  payloads := holds.payloads

theorem repliesDirect {rest : List (Channel × Message)} (holds : Replies server toClient reader v)
    (first : v.outbox = (channel, m) :: rest) (whole : server.cut = []) :
    Replies { server with outbox := rest.map fun m => (m.1, m.2.text) } (toClient ++ m.text) reader
      { v with outbox := rest, wire := v.wire ++ [m] } where
  plain := holds.plain
  outbox := rfl
  unflushed := holds.unflushed
  output := by
    have before := holds.output
    rw [whole, List.append_nil] at before
    dsimp only
    rw [whole, List.append_nil, before, List.flatMap_append, List.flatMap_singleton]
  sends := fun m inside => holds.sends m (by rw [first]; exact List.mem_cons_of_mem _ inside)
  held := holds.held
  carries := by
    intro other inside
    rcases List.mem_append.mp inside with before | last
    · exact holds.carries other before
    · obtain rfl := List.mem_singleton.mp last
      exact .inr ⟨channel, holds.sends (channel, other) (by simp [first])⟩
  alive := holds.alive
  replies := holds.replies
  payloads := holds.payloads

theorem repliesKeep {rest : List (Channel × Message)} (holds : Replies server toClient reader v) (first : v.outbox = (.keep, m) :: rest) :
    Replies { server with outbox := rest.map fun m => (m.1, m.2.text), unflushed := server.unflushed ++ m.text } toClient reader
      { v with outbox := rest, held := v.held ++ [m] } where
  plain := holds.plain
  outbox := rfl
  unflushed := by
    dsimp only
    rw [holds.unflushed, List.flatMap_append, List.flatMap_singleton]
  output := holds.output
  sends := fun m inside => holds.sends m (by rw [first]; exact List.mem_cons_of_mem _ inside)
  held := by
    intro other inside
    rcases List.mem_append.mp inside with before | last
    · exact holds.held other before
    · obtain rfl := List.mem_singleton.mp last
      exact holds.sends (.keep, other) (by simp [first])
  carries := holds.carries
  alive := holds.alive
  replies := holds.replies
  payloads := holds.payloads

/- What a write does: the next text goes out or into the stream, or a piece of the one that was not written at once. -/
theorem writeCases {room n : Nat} {server next : Server} {text : List Byte} (written : server.write room n = some (next, text)) :
    (server.cut = [] ∧ ∃ channel own rest, server.outbox = (channel, own) :: rest ∧ next.outbox = rest ∧
      (channel = .direct → next = { server with outbox := rest } ∧ text = own) ∧
      (channel = .flushLocked ∨ channel = .flush → next.unflushed = [] ∧ text ++ next.cut = server.unflushed ++ own) ∧
      (channel = .keep → (server.unflushed ++ own).length ≤ room →
        next = { server with outbox := rest, unflushed := server.unflushed ++ own } ∧ text = [])) ∨
    (server.cut ≠ [] ∧ 0 < n ∧ next = { server with cut := server.cut.drop n } ∧ text = server.cut.take n) := by
  unfold Server.write at written
  by_cases whole : server.cut = []
  · refine .inl ⟨whole, ?_⟩
    rw [if_pos whole] at written
    cases shape : server.outbox with
    | nil =>
        rw [shape] at written
        contradiction
    | cons p rest =>
        obtain ⟨channel, own⟩ := p
        refine ⟨channel, own, rest, rfl, ?_⟩
        rw [shape] at written
        cases channel with
        | direct =>
            cases written
            exact ⟨rfl, fun _ => ⟨rfl, rfl⟩, fun other => by simp at other, fun other => by contradiction⟩
        | flushLocked =>
            cases written
            refine ⟨rfl, fun other => by contradiction, fun _ => ⟨rfl, ?_⟩, fun other => by contradiction⟩
            rw [whole, List.append_nil]
        | flush =>
            dsimp only at written
            split at written
            · cases written
              refine ⟨rfl, fun other => by contradiction, fun _ => ⟨rfl, ?_⟩, fun other => by contradiction⟩
              rw [whole, List.append_nil]
            · obtain ⟨-, done⟩ := Option.ite_none_right_eq_some.mp written
              cases done
              exact ⟨rfl, fun other => by contradiction, fun _ => ⟨rfl, List.take_append_drop n _⟩, fun other => by contradiction⟩
        | keep =>
            dsimp only at written
            split at written
            · cases written
              exact ⟨rfl, fun other => by contradiction, fun other => by simp at other, fun _ _ => ⟨rfl, rfl⟩⟩
            · rename_i more
              obtain ⟨-, done⟩ := Option.ite_none_right_eq_some.mp written
              cases done
              exact ⟨rfl, fun other => by contradiction, fun other => by simp at other, fun _ room_left => absurd room_left more⟩
  · refine .inr ⟨whole, ?_⟩
    rw [if_neg whole] at written
    obtain ⟨⟨positive, -⟩, done⟩ := Option.ite_none_right_eq_some.mp written
    cases done
    exact ⟨positive, rfl, rfl⟩

theorem repliesWrite {room n : Nat} {next : Server} {text : List Byte} (holds : Replies server toClient reader v)
    (fits : server.overflows room = false) (written : server.write room n = some (next, text)) :
    Replies next (toClient ++ text) reader (if server.cut = [] then v.write else v) := by
  rcases writeCases written with ⟨whole, channel, own, rest, first, left, direct, flushes, keeps⟩ | ⟨more, -, rfl, rfl⟩
  · rw [if_pos whole]
    have outbox := holds.outbox
    rw [first] at outbox
    obtain ⟨⟨way, m⟩, messages, shape, same, rfl⟩ := List.map_eq_cons_iff.mp outbox.symm
    cases same
    have flushed : next.unflushed = [] ∧ text ++ next.cut = server.unflushed ++ m.text →
        Replies next (toClient ++ text) reader { v with outbox := messages, held := [], wire := v.wire ++ (v.held ++ [m]) } := by
      intro done
      obtain ⟨outbox, cut, unflushed⟩ := next
      obtain ⟨rfl, all⟩ := done
      exact repliesFlush holds shape whole left all
    unfold View.write
    rw [shape]
    cases way with
    | direct =>
        obtain ⟨rfl, rfl⟩ := direct rfl
        exact repliesDirect holds shape whole
    | flushLocked => exact flushed (flushes (.inl rfl))
    | flush => exact flushed (flushes (.inr rfl))
    | keep =>
        have room_left : (server.unflushed ++ m.text).length ≤ room := by
          unfold Server.overflows at fits
          rw [first] at fits
          simpa using fits
        obtain ⟨rfl, rfl⟩ := keeps rfl room_left
        rw [List.append_nil]
        exact repliesKeep holds shape
  · rw [if_neg more]
    exact { holds with
      output := by
        dsimp only
        rw [List.append_assoc, List.take_append_drop]
        exact holds.output }

theorem takeUpdates (reader : Reader) (m : Message) :
    (reader.take m).replies = Function.update reader.replies m.number (some m.reading.msg) := by
  cases m <;> rfl

theorem takeReplies {n : Nat} {text : List Byte} (there : (reader.take m).replies n = some text) :
    reader.replies n = some text ∨ (∃ msg, m = .reply n msg ∧ text = found msg) ∨ (∃ bytes, m = .payload n bytes ∧ text = []) := by
  rw [takeUpdates] at there
  by_cases same : (n : Int) = m.number
  · rw [← same, Function.update_self] at there
    obtain rfl := Option.some.inj there
    cases m with
    | reply k msg =>
        obtain rfl : n = k := Int.ofNat.inj same
        exact .inr (.inl ⟨msg, rfl, rfl⟩)
    | payload k bytes =>
        obtain rfl : n = k := Int.ofNat.inj same
        exact .inr (.inr ⟨bytes, rfl, rfl⟩)
    | stopped time => contradiction
    | running time => contradiction
  · rw [Function.update_of_ne same] at there
    exact .inl there

theorem takePayload {n : Nat} {bytes : List Byte} (there : (reader.take m).payloads n = some bytes) :
    reader.payloads n = some bytes ∨ m = .payload n bytes := by
  cases m with
  | payload k other =>
      have found_at : Function.update reader.payloads (k : Int) (some other) n = some bytes := there
      by_cases same : n = k
      · subst same
        rw [Function.update_self] at found_at
        cases found_at
        exact .inr rfl
      · rw [Function.update_of_ne (by omega)] at found_at
        exact .inl found_at
  | reply k msg => exact .inl there
  | stopped time => exact .inl there
  | running time => exact .inl there

theorem takeAlive (reader : Reader) (m : Message) : (reader.take m).alive = reader.alive := by
  cases m <;> rfl

theorem repliesRead {next : Reader} {rest : List Byte} (holds : Replies server toClient reader v) (done : reader.read toClient = some (next, rest)) :
    ∃ m wire, v.wire = m :: wire ∧ next = reader.take m ∧ Replies server rest next { v with wire := wire } := by
  have whole := ProxyReader.readMore server.cut done
  rw [holds.output] at whole
  cases shape : v.wire with
  | nil =>
      rw [shape, List.flatMap_nil] at whole
      unfold Reader.read at whole
      rw [if_pos holds.alive] at whole
      contradiction
  | cons m wire =>
      have known := holds.carries m (by simp [shape])
      have good : m.Plain := by
        rcases known with note | ⟨channel, known⟩
        · exact notePlain note
        · exact fromPlain holds.plain known
      rw [shape, List.flatMap_cons, ProxyReader.readMessage good holds.alive] at whole
      obtain ⟨rfl, left⟩ := Prod.mk.inj (Option.some.inj whole)
      have source : noteOf m = none → ∃ channel, From v.answers channel m := by
        intro other
        rcases known with note | from_answer
        · rw [other] at note
          contradiction
        · exact from_answer
      refine ⟨m, wire, rfl, rfl, ?_⟩
      exact {
        plain := holds.plain
        outbox := holds.outbox
        unflushed := holds.unflushed
        output := left.symm
        sends := holds.sends
        held := holds.held
        carries := fun other inside => holds.carries other (by rw [shape]; exact List.mem_cons_of_mem _ inside)
        alive := by rw [takeAlive, holds.alive]
        replies := by
          intro n text there
          rcases takeReplies there with before | ⟨msg, rfl, rfl⟩ | ⟨bytes, rfl, rfl⟩
          · exact holds.replies n text before
          · obtain ⟨channel, answer, at_answer, reply⟩ := source rfl
            exact ⟨answer, at_answer, .inl ⟨_, reply, rfl⟩⟩
          · obtain ⟨channel, -, answer, at_answer, payload⟩ := source rfl
            exact ⟨answer, at_answer, .inr ⟨by rw [payload]; rfl, rfl⟩⟩
        payloads := by
          intro n bytes there
          rcases takePayload there with before | rfl
          · exact holds.payloads n bytes before
          · obtain ⟨channel, -, answer, at_answer, payload⟩ := source rfl
            exact ⟨answer, at_answer, payload⟩ }

def noted (running : Bool) (time : Int) : Message := if running then .running time else .stopped time

theorem notedText (running : Bool) (time : Int) : (noted running time).text = notifyText running time ∧ noteOf (noted running time) = some (running, time) := by
  cases running with
  | true => exact ⟨List.append_nil _, rfl⟩
  | false => exact ⟨List.append_nil _, rfl⟩

theorem repliesNotify {running : Bool} {time : Int} (holds : Replies server toClient reader v) (whole : server.cut = []) :
    Replies server (toClient ++ notifyText running time) reader { v with wire := v.wire ++ [noted running time] } := by
  obtain ⟨text, note⟩ := notedText running time
  have before := holds.output
  rw [whole, List.append_nil] at before
  exact { holds with
    output := by
      dsimp only
      rw [whole, List.append_nil, before, List.flatMap_append, List.flatMap_singleton, text]
    carries := by
      intro other inside
      rcases List.mem_append.mp inside with old | last
      · exact holds.carries other old
      · obtain rfl := List.mem_singleton.mp last
        exact .inl (by rw [note]; rfl) }

theorem repliesTaken {next : Reader} (holds : Replies server toClient reader v) (alive : next.alive = reader.alive)
    (replies : ∀ n text, next.replies n = some text → reader.replies n = some text)
    (payloads : ∀ n bytes, next.payloads n = some bytes → reader.payloads n = some bytes) : Replies server toClient next v :=
  { holds with
    alive := by rw [alive, holds.alive]
    replies := fun n text there => holds.replies n text (replies n text there)
    payloads := fun n bytes there => holds.payloads n bytes (payloads n bytes there) }

end Replies

end Gvsoc.Proxy
