import Gvsoc.ProxyInvariant
import Gvsoc.ProxyRouter

/-! The runs of the proxy: every call returns what its command gives, and the commands are served one after the other. -/
namespace Gvsoc.Proxy
open Bytes (Byte)
open CText (ch ascii starts)
open ProxyText
open ProxyReader (Reader Message found)

variable {σ ι : Type} {top : Top σ}

section Callers

variable {calls : List Call} {answers : List Answer} {caller next : Caller} {n : Nat}

theorem askedInside (asked : Asked calls answers caller) (waits : caller.waits = some n) : ∃ c, calls[n]? = some c := by
  cases caller with
  | idle => contradiction
  | values m bytes =>
      cases waits
      obtain ⟨cmd, bytes, there⟩ := asked
      exact ⟨_, there⟩
  | payload m =>
      cases waits
      obtain ⟨cmd, there⟩ := asked
      exact ⟨_, there⟩
  | reply m kept =>
      cases waits
      cases kept with
      | none =>
          obtain ⟨cmd, there⟩ := asked
          exact ⟨_, there⟩
      | some kept =>
          rcases asked with ⟨-, cmd, bytes, there⟩ | ⟨cmd, answer, there, -⟩
          · exact ⟨_, there⟩
          · exact ⟨_, there⟩

theorem askedMore (moreCalls : List Call) (moreAnswers : List Answer) (asked : Asked calls answers caller) :
    Asked (calls ++ moreCalls) (answers ++ moreAnswers) caller := by
  cases caller with
  | idle => trivial
  | values m bytes =>
      obtain ⟨cmd, bytes, there⟩ := asked
      exact ⟨cmd, bytes, foundMore _ there⟩
  | payload m =>
      obtain ⟨cmd, there⟩ := asked
      exact ⟨cmd, foundMore _ there⟩
  | reply m kept =>
      cases kept with
      | none =>
          obtain ⟨cmd, there⟩ := asked
          exact ⟨cmd, foundMore _ there⟩
      | some kept =>
          rcases asked with ⟨empty, cmd, bytes, there⟩ | ⟨cmd, answer, there, at_answer, payload⟩
          · exact .inl ⟨empty, cmd, bytes, foundMore _ there⟩
          · exact .inr ⟨cmd, answer, foundMore _ there, foundMore _ at_answer, payload⟩

theorem callerWaits (c : Call) (n : Nat) : (c.caller n).waits = some n := by
  cases c <;> rfl

theorem callerAsked {c : Call} (there : calls[n]? = some c) : Asked calls answers (c.caller n) := by
  cases c with
  | plain cmd => exact ⟨cmd, there⟩
  | values cmd bytes => exact ⟨cmd, bytes, there⟩
  | payload cmd => exact ⟨cmd, there⟩

variable {h : History} {callers : ι → Caller} {lock : Option ι} {i : ι}

theorem callersServe (answer : Answer) (holds : Callers h callers lock answers) : Callers h callers lock (answers ++ [answer]) :=
  { holds with
    asked := fun i => by
      have asked := askedMore [] [answer] (holds.asked i)
      rwa [List.append_nil] at asked
    returned := by
      intro n value inside
      obtain ⟨c, other, at_call, at_answer, same⟩ := holds.returned n value inside
      exact ⟨c, other, at_call, foundMore _ at_answer, same⟩ }

theorem waitsCalled (holds : Callers h callers lock answers) {j : ι} (waiting : (callers j).waits = some n) : n < h.calls.length := by
  obtain ⟨d, there⟩ := askedInside (holds.asked j) waiting
  exact (List.getElem?_eq_some_iff.mp there).1

theorem returnedCalled (holds : Callers h callers lock answers) (inside : n ∈ h.returned.map Prod.fst) : n < h.calls.length := by
  obtain ⟨⟨n, value⟩, member, rfl⟩ := List.mem_map.mp inside
  obtain ⟨d, answer, there, -⟩ := holds.returned n value member
  exact (List.getElem?_eq_some_iff.mp there).1

variable [DecidableEq ι]

theorem waitsUpdated (next : Caller) (same : next.waits = (callers i).waits) (j : ι) : (Function.update callers i next j).waits = (callers j).waits := by
  by_cases here : j = i
  · rw [here, Function.update_self, same]
  · rw [Function.update_of_ne here]

theorem payloadUpdated {j : ι} (free : next.locks = false) (waiting : Function.update callers i next j = .payload n) :
    j ≠ i ∧ callers j = .payload n := by
  by_cases here : j = i
  · rw [here, Function.update_self] at waiting
    rw [waiting] at free
    contradiction
  · rw [Function.update_of_ne here] at waiting
    exact ⟨here, waiting⟩

theorem askedUpdated (own : Asked calls answers next) (others : ∀ j, Asked calls answers (callers j)) (j : ι) :
    Asked calls answers (Function.update callers i next j) := by
  by_cases here : j = i
  · rw [here, Function.update_self]
    exact own
  · rw [Function.update_of_ne here]
    exact others j

theorem callersMoved (holds : Callers h callers lock answers) (held : (callers i).locks = true) (same : next.waits = (callers i).waits)
    (free : next.locks = false) (asked : Asked h.calls answers next) : Callers h (Function.update callers i next) none answers := by
  have waits := waitsUpdated next same
  exact {
    asked := askedUpdated asked holds.asked
    apart := fun j k n first second => holds.apart j k n (waits j ▸ first) (waits k ▸ second)
    locked := by
      intro j
      have own := (holds.locked i).mp held
      by_cases here : j = i
      · rw [here, Function.update_self, free]
        exact iff_of_false Bool.false_ne_true (Option.some_ne_none i).symm
      · rw [Function.update_of_ne here, holds.locked j, own]
        exact iff_of_false (fun both => here (Option.some.inj both).symm) (Option.some_ne_none j).symm
    returned := holds.returned
    once := holds.once
    unreturned := fun j n waiting => holds.unreturned j n (waits j ▸ waiting)
    covered := by
      intro n inside
      rcases holds.covered n inside with old | ⟨j, waiting⟩
      · exact .inl old
      · exact .inr ⟨j, (waits j).trans waiting⟩ }

theorem callWaits (c : Call) {m : Nat} {j : ι} (waiting : (Function.update callers i (c.caller m) j).waits = some n) :
    (j = i ∧ n = m) ∨ (j ≠ i ∧ (callers j).waits = some n) := by
  by_cases here : j = i
  · rw [here, Function.update_self, callerWaits] at waiting
    exact .inl ⟨here, (Option.some.inj waiting).symm⟩
  · rw [Function.update_of_ne here] at waiting
    exact .inr ⟨here, waiting⟩

theorem idleWaits {j : ι} (waiting : (Function.update callers i .idle j).waits = some n) : j ≠ i ∧ (callers j).waits = some n := by
  by_cases here : j = i
  · rw [here, Function.update_self] at waiting
    contradiction
  · rw [Function.update_of_ne here] at waiting
    exact ⟨here, waiting⟩

theorem callersCall (c : Call) (holds : Callers h callers lock answers) (idle : callers i = .idle) (free : lock = none) :
    Callers { h with calls := h.calls ++ [c] } (Function.update callers i (c.caller h.calls.length))
      (if (c.caller h.calls.length).locks then some i else none) answers := by
  have last : (h.calls ++ [c])[h.calls.length]? = some c := by simp
  exact {
    asked := by
      refine askedUpdated (callerAsked last) fun j => ?_
      have asked := askedMore [c] [] (holds.asked j)
      rwa [List.append_nil] at asked
    apart := by
      intro j k n first second
      rcases callWaits c first with ⟨rfl, rfl⟩ | ⟨-, first⟩
      · rcases callWaits c second with ⟨rfl, -⟩ | ⟨-, second⟩
        · rfl
        · exact absurd (waitsCalled holds second) (Nat.lt_irrefl _)
      · rcases callWaits c second with ⟨-, rfl⟩ | ⟨-, second⟩
        · exact absurd (waitsCalled holds first) (Nat.lt_irrefl _)
        · exact holds.apart j k n first second
    locked := by
      intro j
      have none_locks : ∀ k, (callers k).locks = false := fun k => by
        rw [← Bool.not_eq_true, holds.locked k, free]
        exact (Option.some_ne_none k).symm
      by_cases here : j = i
      · rw [here, Function.update_self]
        cases (c.caller h.calls.length).locks <;> simp
      · rw [Function.update_of_ne here, none_locks j]
        refine iff_of_false Bool.false_ne_true fun same => ?_
        split at same
        · exact here (Option.some.inj same).symm
        · contradiction
    returned := by
      intro n value inside
      obtain ⟨d, answer, at_call, at_answer, same⟩ := holds.returned n value inside
      exact ⟨d, answer, foundMore _ at_call, at_answer, same⟩
    once := holds.once
    unreturned := by
      intro j n waiting
      rcases callWaits c waiting with ⟨-, rfl⟩ | ⟨-, old⟩
      · exact fun inside => absurd (returnedCalled holds inside) (Nat.lt_irrefl _)
      · exact holds.unreturned j n old
    covered := by
      intro n inside
      rw [List.length_append, List.length_singleton] at inside
      by_cases new : n = h.calls.length
      · exact .inr ⟨i, by rw [Function.update_self, callerWaits, new]⟩
      · rcases holds.covered n (by omega) with old | ⟨j, waiting⟩
        · exact .inl old
        · refine .inr ⟨j, ?_⟩
          have other : j ≠ i := by
            rintro rfl
            rw [idle] at waiting
            contradiction
          rw [Function.update_of_ne other]
          exact waiting }

theorem callersReturn {value : List Byte} (holds : Callers h callers lock answers) (waiting : (callers i).waits = some n)
    (held : (callers i).locks = false) {c : Call} {answer : Answer} (at_call : h.calls[n]? = some c) (at_answer : answers[n]? = some answer)
    (gives : c.value answer = some value) :
    Callers { h with returned := h.returned ++ [(n, value)] } (Function.update callers i .idle) lock answers := by
  have returned : (h.returned ++ [(n, value)]).map Prod.fst = h.returned.map Prod.fst ++ [n] := by simp
  exact {
    asked := askedUpdated trivial holds.asked
    apart := fun j k m first second => holds.apart j k m (idleWaits first).2 (idleWaits second).2
    locked := by
      intro j
      by_cases here : j = i
      · have own := holds.locked i
        rw [held] at own
        rw [here, Function.update_self]
        exact own
      · rw [Function.update_of_ne here]
        exact holds.locked j
    returned := by
      intro m other inside
      rcases List.mem_append.mp inside with old | new
      · exact holds.returned m other old
      · cases List.mem_singleton.mp new
        exact ⟨c, answer, at_call, at_answer, gives⟩
    once := by
      rw [returned, List.nodup_append]
      refine ⟨holds.once, List.nodup_singleton n, ?_⟩
      intro a old b new same
      rw [List.mem_singleton.mp new] at same
      exact holds.unreturned i n waiting (same ▸ old)
    unreturned := by
      intro j m waits
      obtain ⟨other, old⟩ := idleWaits waits
      rw [returned, List.mem_append, List.mem_singleton]
      rintro (inside | rfl)
      · exact holds.unreturned j m old inside
      · exact other (holds.apart j i m old waiting)
    covered := by
      intro m inside
      rw [returned, List.mem_append, List.mem_singleton]
      rcases holds.covered m inside with old | ⟨j, waits⟩
      · exact .inl (.inl old)
      · by_cases here : j = i
        · rw [here, waiting] at waits
          exact .inl (.inr (Option.some.inj waits).symm)
        · exact .inr ⟨j, by rw [Function.update_of_ne here]; exact waits⟩ }

end Callers

section Comes

variable {v : View} {reader : Reader} {callers : ι → Caller} {n : Nat}

theorem comesMoved {next : View} (holds : Comes callers reader v) (answers : next.answers = v.answers)
    (outbox : ∀ p ∈ v.outbox, p.1 ≠ .keep → p ∈ next.outbox ∨ p.2 ∈ next.wire) (wire : ∀ m ∈ v.wire, m ∈ next.wire) :
    Comes callers reader next where
  reply := by
    intro i n waiting answer channel msg there reply sent
    rw [answers] at there
    rcases holds.reply i n waiting answer channel msg there reply sent with inside | inside | found_there
    · rcases outbox _ inside sent with still | now
      · exact .inl still
      · exact .inr (.inl now)
    · exact .inr (.inl (wire _ inside))
    · exact .inr (.inr found_there)
  payload := by
    intro i n waiting answer bytes there payload
    rw [answers] at there
    rcases holds.payload i n waiting answer bytes there payload with inside | inside | found_there
    · have flushed : Channel.flush ≠ .keep := by decide
      rcases outbox _ inside flushed with still | now
      · exact .inl still
      · exact .inr (.inl now)
    · exact .inr (.inl (wire _ inside))
    · exact .inr (.inr found_there)

theorem comesWrite (holds : Comes callers reader v) : Comes callers reader v.write := by
  cases shape : v.outbox with
  | nil =>
      have same : v.write = v := by
        unfold View.write
        rw [shape]
      rw [same]
      exact holds
  | cons p rest =>
      obtain ⟨channel, m⟩ := p
      have keeps : ∀ outbox' held wire, v.write = { v with outbox := outbox', held := held, wire := wire } → outbox' = rest →
          (channel ≠ .keep → m ∈ wire) → (∀ m ∈ v.wire, m ∈ wire) → Comes callers reader v.write := by
        intro outbox' held wire same left first old
        rw [same]
        refine comesMoved holds rfl ?_ old
        intro p inside sent
        rw [shape] at inside
        rcases List.mem_cons.mp inside with rfl | later
        · exact .inr (first sent)
        · exact .inl (left ▸ later)
      unfold View.write at keeps ⊢
      rw [shape] at keeps ⊢
      cases channel with
      | direct => exact keeps _ _ _ rfl rfl (fun _ => by simp) (fun m inside => by simp [inside])
      | flushLocked => exact keeps _ _ _ rfl rfl (fun _ => by simp) (fun m inside => by simp [inside])
      | flush => exact keeps _ _ _ rfl rfl (fun _ => by simp) (fun m inside => by simp [inside])
      | keep => exact keeps _ _ _ rfl rfl (fun other => absurd rfl other) (fun m inside => inside)

theorem takeKeeps (reader : Reader) (m : Message) (n : Nat) :
    ((reader.replies n).isSome = true → ((reader.take m).replies n).isSome = true) ∧
      ((reader.payloads n).isSome = true → ((reader.take m).payloads n).isSome = true) := by
  constructor
  · intro there
    rw [takeUpdates]
    by_cases same : (n : Int) = m.number
    · rw [← same, Function.update_self]
      rfl
    · rw [Function.update_of_ne same]
      exact there
  · intro there
    cases m with
    | payload k bytes =>
        show (Function.update reader.payloads (k : Int) (some bytes) n).isSome = true
        by_cases same : n = k
        · rw [same, Function.update_self]
          rfl
        · rw [Function.update_of_ne (by omega)]
          exact there
    | reply k msg => exact there
    | stopped time => exact there
    | running time => exact there

theorem comesRead {m : Message} {wire : List Message} (holds : Comes callers reader v) (first : v.wire = m :: wire) :
    Comes callers (reader.take m) { v with wire := wire } where
  reply := by
    intro i n waiting answer channel msg there reply sent
    rcases holds.reply i n waiting answer channel msg there reply sent with inside | inside | found_there
    · exact .inl inside
    · rw [first] at inside
      rcases List.mem_cons.mp inside with rfl | later
      · refine .inr (.inr ?_)
        rw [takeUpdates]
        show (Function.update reader.replies (n : Int) _ n).isSome = true
        rw [Function.update_self]
        rfl
      · exact .inr (.inl later)
    · exact .inr (.inr ((takeKeeps reader m n).1 found_there))
  payload := by
    intro i n waiting answer bytes there payload
    rcases holds.payload i n waiting answer bytes there payload with inside | inside | found_there
    · exact .inl inside
    · rw [first] at inside
      rcases List.mem_cons.mp inside with rfl | later
      · refine .inr (.inr ?_)
        show (Function.update reader.payloads (n : Int) (some bytes) n).isSome = true
        rw [Function.update_self]
        rfl
      · exact .inr (.inl later)
    · exact .inr (.inr ((takeKeeps reader m n).2 found_there))

theorem comesServe {answer : Answer} (holds : Comes callers reader v) (ready : v.outbox = []) :
    Comes callers reader { v with answers := v.answers ++ [answer], outbox := answer.messages v.answers.length } where
  reply := by
    intro i n waiting other channel msg there reply sent
    rcases foundConcat there with before | ⟨rfl, rfl⟩
    · rcases holds.reply i n waiting other channel msg before reply sent with inside | later
      · rw [ready] at inside
        contradiction
      · exact .inr later
    · refine .inl (List.mem_append_right _ (List.mem_map.mpr ⟨(channel, msg), ?_, rfl⟩))
      rw [reply]
      simp
  payload := by
    intro i n waiting other bytes there payload
    rcases foundConcat there with before | ⟨rfl, rfl⟩
    · rcases holds.payload i n waiting other bytes before payload with inside | later
      · rw [ready] at inside
        contradiction
      · exact .inr later
    · refine .inl (List.mem_append_left _ (List.mem_map.mpr ⟨bytes, ?_, rfl⟩))
      rw [payload]
      simp

theorem comesCallers {others : ι → Caller} {next : Reader} (holds : Comes callers reader v)
    (waits : ∀ j n, (others j).waits = some n →
      v.answers.length ≤ n ∨ ((∃ k, (callers k).waits = some n) ∧ next.replies n = reader.replies n))
    (payloads : ∀ j n, others j = .payload n →
      v.answers.length ≤ n ∨ ((∃ k, callers k = .payload n) ∧ next.payloads n = reader.payloads n)) :
    Comes others next v where
  reply := by
    intro j n waiting answer channel msg there reply sent
    have bound := (List.getElem?_eq_some_iff.mp there).1
    rcases waits j n waiting with unanswered | ⟨⟨k, before⟩, same⟩
    · omega
    · rw [same]
      exact holds.reply k n before answer channel msg there reply sent
  payload := by
    intro j n waiting answer bytes there payload
    have bound := (List.getElem?_eq_some_iff.mp there).1
    rcases payloads j n waiting with unanswered | ⟨⟨k, before⟩, same⟩
    · omega
    · rw [same]
      exact holds.payload k n before answer bytes there payload

end Comes

section Noted

variable {h : History} {reader : Reader} {wire : List Message} {m : Message}

theorem notedNotify {running : Bool} {time : Int} (holds : Noted h reader wire) :
    Noted { h with notified := h.notified ++ [(running, time)] } reader (wire ++ [noted running time]) := by
  obtain ⟨seen, all, known⟩ := holds
  refine ⟨seen, ?_, known⟩
  have note := (notedText running time).2
  rw [List.filterMap_append, List.filterMap_cons_some note, List.filterMap_nil, ← List.append_assoc, ← all]

theorem notedRead (holds : Noted h reader (m :: wire)) : Noted h (reader.take m) wire := by
  obtain ⟨seen, all, known⟩ := holds
  cases m with
  | reply n msg => exact ⟨seen, all, known⟩
  | payload n bytes => exact ⟨seen, all, known⟩
  | stopped time =>
      refine ⟨seen ++ [(false, time)], by simpa [noteOf] using all, ?_⟩
      rw [List.foldl_append, ← known]
      rfl
  | running time =>
      refine ⟨seen ++ [(true, time)], by simpa [noteOf] using all, ?_⟩
      rw [List.foldl_append, ← known]
      rfl

theorem fromNoNote {answers : List Answer} {channel : Channel} (known : From answers channel m) : noteOf m = none := by
  cases m with
  | reply n msg => rfl
  | payload n bytes => rfl
  | stopped time => exact known.elim
  | running time => exact known.elim

theorem writeNotes {server : Server} {toClient : List Byte} {v : View} (replies : Replies server toClient reader v) :
    v.write.wire.filterMap noteOf = v.wire.filterMap noteOf := by
  have heldNone : v.held.filterMap noteOf = [] := List.filterMap_eq_nil_iff.mpr fun m inside => fromNoNote (replies.held m inside)
  unfold View.write
  cases shape : v.outbox with
  | nil => rfl
  | cons p rest =>
      obtain ⟨channel, m⟩ := p
      have none : noteOf m = none := fromNoNote (replies.sends (channel, m) (by simp [shape]))
      cases channel <;> simp [none, heldNone]

end Noted

section Step

variable {room : Nat} {first : σ} {h : History} {s next : Link σ ι} {v : View} {i : ι}

theorem startHolds (top : Top σ) (first : σ) : Holds top first ⟨[], [], [], []⟩ (Link.start first : Link σ ι) ⟨[], [], [], []⟩ where
  requests := {
    played := rfl
    counted := rfl
    short := fun n c there => by simp at there
    kinds := fun n c answer there => by simp at there
    input := rfl }
  replies := {
    plain := fun answer inside => absurd inside List.not_mem_nil
    outbox := rfl
    unflushed := rfl
    output := rfl
    sends := fun m inside => absurd inside List.not_mem_nil
    held := fun m inside => absurd inside List.not_mem_nil
    carries := fun m inside => absurd inside List.not_mem_nil
    alive := rfl
    replies := fun n text there => by contradiction
    payloads := fun n bytes there => by contradiction }
  callers := {
    asked := fun i => trivial
    apart := fun i j n waiting => by contradiction
    locked := fun i => by simp [Link.start, Caller.locks]
    returned := fun n value inside => absurd inside List.not_mem_nil
    once := List.nodup_nil
    unreturned := fun i n waiting => by contradiction
    covered := fun n inside => absurd inside (Nat.not_lt_zero n) }
  comes := {
    reply := fun i n waiting => by contradiction
    payload := fun i n waiting => by contradiction }
  noted := ⟨[], rfl, rfl⟩

theorem replyGives {req : Nat} {kept : Option (List Byte)} {reply : List Byte} (holds : Holds top first h s v)
    (at_reply : s.callers i = .reply req kept) (there : s.reader.replies req = some reply) :
    ∃ c answer, h.calls[req]? = some c ∧ v.answers[req]? = some answer ∧ c.value answer = some (kept.getD reply) := by
  have asked := holds.callers.asked i
  rw [at_reply] at asked
  obtain ⟨answer, at_answer, reads⟩ := holds.replies.replies req reply there
  cases kept with
  | none =>
      obtain ⟨cmd, at_call⟩ := asked
      refine ⟨_, answer, at_call, at_answer, ?_⟩
      rcases reads with ⟨sent, own, rfl⟩ | ⟨payload, -⟩
      · simp [Call.value, own]
      · have kind := (holds.requests.kinds req _ answer at_call at_answer).mp payload
        contradiction
  | some kept =>
      rcases asked with ⟨rfl, cmd, bytes, at_call⟩ | ⟨cmd, other, at_call, same, own⟩
      · exact ⟨_, answer, at_call, at_answer, rfl⟩
      · exact ⟨_, other, at_call, same, own⟩

theorem serveHolds (holds : Holds top first h s v) (proper : ∀ c ∈ h.calls, Proper top c) (taken : s.serve top = some next) :
    ∃ answer, Holds top first { h with ops := h.ops ++ [.command] } next
      { v with answers := v.answers ++ [answer], outbox := answer.messages v.answers.length } := by
  obtain ⟨ready, -, c, answer, rest, here, done, kind, left, shape⟩ := serveNext holds.requests proper taken
  have empty : v.outbox = [] := by
    have all := holds.replies.outbox
    rw [ready] at all
    exact List.map_eq_nil_iff.mp all.symm
  have served := requestsServe holds.requests here done kind left
  rw [shape]
  exact ⟨answer, {
    requests := served
    replies := repliesServe holds.replies fun channel msg reply => executePlain _ _ _ _ _ _ _ done reply
    callers := { callersServe answer holds.callers with }
    comes := comesServe holds.comes empty
    noted := holds.noted }⟩

theorem writeHolds {n : Nat} {server : Server} {text : List Byte} (holds : Holds top first h s v) (fits : s.server.overflows room = false)
    (written : s.server.write room n = some (server, text)) :
    Holds top first h { s with server := server, toClient := s.toClient ++ text } (if s.server.cut = [] then v.write else v) := by
  have replies := repliesWrite holds.replies fits written
  have notes := writeNotes holds.replies
  by_cases whole : s.server.cut = []
  · rw [if_pos whole] at replies ⊢
    have answers : v.write.answers = v.answers := by
      unfold View.write
      split <;> rfl
    exact {
      requests := by
        rw [answers]
        exact holds.requests
      replies := replies
      callers := by
        rw [answers]
        exact holds.callers
      comes := comesWrite holds.comes
      noted := by
        unfold Noted
        rw [notes]
        exact holds.noted }
  · rw [if_neg whole] at replies ⊢
    exact {
      requests := holds.requests
      replies := replies
      callers := holds.callers
      comes := holds.comes
      noted := holds.noted }

theorem readHolds {reader : Reader} {rest : List Byte} (holds : Holds top first h s v) (read : s.reader.read s.toClient = some (reader, rest)) :
    ∃ m wire, v.wire = m :: wire ∧ Holds top first h { s with reader := reader, toClient := rest } { v with wire := wire } := by
  obtain ⟨m, wire, shape, rfl, replies⟩ := repliesRead holds.replies read
  refine ⟨m, wire, shape, ?_⟩
  have noted := holds.noted
  rw [shape] at noted
  exact {
    requests := holds.requests
    replies := replies
    callers := holds.callers
    comes := comesRead holds.comes shape
    noted := notedRead noted }

theorem notifyHolds {running : Bool} {time : Int} (holds : Holds top first h s v) (whole : s.server.cut = []) :
    Holds top first { h with notified := h.notified ++ [(running, time)] } { s with toClient := s.toClient ++ notifyText running time }
      { v with wire := v.wire ++ [noted running time] } where
  requests := ⟨holds.requests.played, holds.requests.counted, holds.requests.short, holds.requests.kinds, holds.requests.input⟩
  replies := repliesNotify holds.replies whole
  callers := { holds.callers with }
  comes := comesMoved holds.comes rfl (fun _ inside _ => .inl inside) fun _ inside => List.mem_append_left _ inside
  noted := notedNotify holds.noted

variable [DecidableEq ι]

theorem callHolds {c : Call} (holds : Holds top first h s v) (short : (commandLine s.reqId c.cmd).length ≤ 1023)
    (taken : s.sendCmd i c = some next) : Holds top first { h with calls := h.calls ++ [c] } next v := by
  obtain ⟨idle, free, rfl⟩ := sendCmdCases taken
  have counted := holds.requests.counted
  have answered := playCount holds.requests.played
  have sent := requestsCall holds.requests short
  have input : s.toServer ++ unsent s.lock s.callers ++ (commandLine s.reqId c.cmd ++ c.bytes) =
      s.toServer ++ commandLine s.reqId c.cmd ++ c.bytes := by
    rw [free]
    simp [unsent]
  rw [input] at sent
  exact {
    requests := by
      dsimp only
      rw [unsentCall]
      exact sent
    replies := holds.replies
    callers := by
      dsimp only
      rw [counted]
      exact callersCall c holds.callers idle free
    comes := by
      refine comesCallers holds.comes ?_ ?_
      · intro j n waiting
        by_cases here : j = i
        · dsimp only at waiting
          rw [here, Function.update_self, callerWaits] at waiting
          have number := Option.some.inj waiting
          exact .inl (by omega)
        · dsimp only at waiting
          rw [Function.update_of_ne here] at waiting
          exact .inr ⟨⟨j, waiting⟩, rfl⟩
      · intro j n waiting
        by_cases here : j = i
        · dsimp only at waiting
          rw [here, Function.update_self] at waiting
          have number := congrArg Caller.waits waiting
          rw [callerWaits] at number
          have number := Option.some.inj number
          exact .inl (by omega)
        · dsimp only at waiting
          rw [Function.update_of_ne here] at waiting
          exact .inr ⟨⟨j, waiting⟩, rfl⟩
    noted := holds.noted }

theorem sendValuesHolds (holds : Holds top first h s v) (taken : s.sendValues i = some next) : Holds top first h next v := by
  obtain ⟨req, bytes, at_values, rfl⟩ := sendValuesCases taken
  have held : (s.callers i).locks = true := by
    rw [at_values]
    rfl
  have lock := (holds.callers.locked i).mp held
  have asked := holds.callers.asked i
  rw [at_values] at asked
  obtain ⟨cmd, all, at_call⟩ := asked
  have sends : unsent s.lock s.callers = bytes := by
    unfold unsent
    rw [lock, Option.elim_some, at_values]
    rfl
  have before := holds.requests
  rw [sends] at before
  have input : s.toServer ++ bytes = s.toServer ++ bytes ++ unsent none (Function.update s.callers i (.reply req (some []))) :=
    (List.append_nil _).symm
  exact {
    requests := by
      rw [input] at before
      exact before
    replies := holds.replies
    callers := callersMoved holds.callers held (by rw [at_values]; rfl) rfl (.inl ⟨rfl, cmd, all, at_call⟩)
    comes := by
      refine comesCallers holds.comes ?_ ?_
      · intro j n waiting
        exact .inr ⟨⟨j, (waitsUpdated (.reply req (some [])) (by rw [at_values]; rfl) j).symm.trans waiting⟩, rfl⟩
      · intro j n waiting
        obtain ⟨-, before⟩ := payloadUpdated rfl waiting
        exact .inr ⟨⟨j, before⟩, rfl⟩
    noted := holds.noted }

theorem getPayloadHolds (holds : Holds top first h s v) (taken : s.getPayload i = some next) : Holds top first h next v := by
  obtain ⟨req, payload, at_payload, there, rfl⟩ := getPayloadCases taken
  have held : (s.callers i).locks = true := by
    rw [at_payload]
    rfl
  have lock := (holds.callers.locked i).mp held
  have waits : (s.callers i).waits = some req := by
    rw [at_payload]
    rfl
  have asked := holds.callers.asked i
  rw [at_payload] at asked
  obtain ⟨cmd, at_call⟩ := asked
  obtain ⟨answer, at_answer, own⟩ := holds.replies.payloads req payload there
  have sends : unsent s.lock s.callers = unsent none (Function.update s.callers i (.reply req (some payload))) := by
    unfold unsent
    rw [lock, Option.elim_some, at_payload]
    rfl
  have others : ∀ j n, j ≠ i → s.callers j = .payload n → n ≠ req := by
    intro j n other waiting same
    refine other (holds.callers.apart j i n ?_ (same ▸ waits))
    rw [waiting]
    rfl
  exact {
    requests := by
      dsimp only
      rw [← sends]
      exact holds.requests
    replies := by
      refine repliesTaken holds.replies rfl (fun n text there => there) fun n bytes found_there => ?_
      dsimp only at found_there
      by_cases same : n = (req : Int)
      · rw [same, Function.update_self] at found_there
        contradiction
      · rwa [Function.update_of_ne same] at found_there
    callers := callersMoved holds.callers held (by rw [at_payload]; rfl) rfl (.inr ⟨cmd, answer, at_call, at_answer, own⟩)
    comes := by
      refine comesCallers holds.comes ?_ ?_
      · intro j n waiting
        exact .inr ⟨⟨j, (waitsUpdated (.reply req (some payload)) waits.symm j).symm.trans waiting⟩, rfl⟩
      · intro j n waiting
        obtain ⟨here, before⟩ := payloadUpdated rfl waiting
        have other := others j n here before
        refine .inr ⟨⟨j, before⟩, ?_⟩
        dsimp only
        rw [Function.update_of_ne (by omega)]
    noted := holds.noted }

theorem waitReplyHolds {req : Nat} {value : List Byte} (holds : Holds top first h s v) (taken : s.waitReply i req value = some next) :
    Holds top first { h with returned := h.returned ++ [(req, value)] } next v := by
  obtain ⟨kept, reply, at_reply, there, rfl, rfl⟩ := waitReplyCases taken
  obtain ⟨c, answer, at_call, at_answer, gives⟩ := replyGives holds at_reply there
  have waits : (s.callers i).waits = some req := by
    rw [at_reply]
    rfl
  have free : (s.callers i).locks = false := by
    rw [at_reply]
    rfl
  have unlocked : s.lock ≠ some i := by
    rw [ne_eq, ← holds.callers.locked i, free]
    exact Bool.false_ne_true
  have left : ∀ j n, (Function.update s.callers i .idle j).waits = some n → j ≠ i ∧ s.callers j = Function.update s.callers i .idle j := by
    intro j n waiting
    by_cases here : j = i
    · rw [here, Function.update_self] at waiting
      contradiction
    · rw [Function.update_of_ne here]
      exact ⟨here, rfl⟩
  exact {
    requests := by
      dsimp only
      rw [unsentOther unlocked]
      exact ⟨holds.requests.played, holds.requests.counted, holds.requests.short, holds.requests.kinds, holds.requests.input⟩
    replies := by
      refine repliesTaken holds.replies rfl (fun n text found_there => ?_) (fun n bytes there => there)
      dsimp only at found_there
      by_cases same : n = (req : Int)
      · rw [same, Function.update_self] at found_there
        contradiction
      · rwa [Function.update_of_ne same] at found_there
    callers := callersReturn holds.callers waits free at_call at_answer gives
    comes := by
      refine comesCallers holds.comes ?_ ?_
      · intro j n waiting
        obtain ⟨other, same⟩ := left j n waiting
        dsimp only at waiting
        rw [← same] at waiting
        have apart : n ≠ req := fun equal => other (holds.callers.apart j i n waiting (equal ▸ waits))
        refine .inr ⟨⟨j, waiting⟩, ?_⟩
        dsimp only
        rw [Function.update_of_ne (by omega)]
      · intro j n waiting
        obtain ⟨other, same⟩ := left j n (congrArg Caller.waits waiting)
        dsimp only at waiting
        rw [← same] at waiting
        exact .inr ⟨⟨j, waiting⟩, rfl⟩
    noted := holds.noted }

theorem stepHolds {a : Action ι} (holds : Holds top first h s v) (whole : Whole room s a) (proper : ∀ c ∈ h.calls, Proper top c)
    (taken : step top room s a = some next) : ∃ w, Holds top first (h.after a) next w := by
  cases a with
  | call i c => exact ⟨v, callHolds holds whole taken⟩
  | sendValues i => exact ⟨v, sendValuesHolds holds taken⟩
  | getPayload i => exact ⟨v, getPayloadHolds holds taken⟩
  | waitReply i req value => exact ⟨v, waitReplyHolds holds taken⟩
  | serve =>
      obtain ⟨answer, served⟩ := serveHolds holds proper taken
      exact ⟨_, served⟩
  | write n =>
      obtain ⟨⟨server, text⟩, written, rfl⟩ := Option.map_eq_some_iff.mp taken
      exact ⟨_, writeHolds holds whole written⟩
  | read =>
      obtain ⟨⟨reader, rest⟩, read, rfl⟩ := Option.map_eq_some_iff.mp taken
      obtain ⟨m, wire, -, after⟩ := readHolds holds read
      exact ⟨_, after⟩
  | notify running time =>
      cases taken
      exact ⟨_, notifyHolds holds whole⟩
  | advance =>
      cases taken
      exact ⟨v, {
        requests := requestsAdvance holds.requests
        replies := holds.replies
        callers := { holds.callers with }
        comes := holds.comes
        noted := holds.noted }⟩

end Step

section Runs

variable {room : Nat} {first : σ} {trace : List (Action ι × Link σ ι)} {last : Link σ ι}

theorem historySnoc (trace : List (Action ι × Link σ ι)) (a : Action ι) (s : Link σ ι) :
    historyOf (trace ++ [(a, s)]) = (historyOf trace).after a := by
  unfold historyOf
  rw [List.foldl_append]
  rfl

theorem afterCalls (h : History) (a : Action ι) : ∃ more, (h.after a).calls = h.calls ++ more := by
  cases a with
  | call i c => exact ⟨[c], rfl⟩
  | sendValues i => exact ⟨[], (List.append_nil _).symm⟩
  | getPayload i => exact ⟨[], (List.append_nil _).symm⟩
  | waitReply i req value => exact ⟨[], (List.append_nil _).symm⟩
  | serve => exact ⟨[], (List.append_nil _).symm⟩
  | write n => exact ⟨[], (List.append_nil _).symm⟩
  | read => exact ⟨[], (List.append_nil _).symm⟩
  | notify running time => exact ⟨[], (List.append_nil _).symm⟩
  | advance => exact ⟨[], (List.append_nil _).symm⟩

variable [DecidableEq ι]

theorem runHolds (run : Machine.Run (step top room) (Whole room) (.start first) trace last)
    (proper : ∀ c ∈ (historyOf trace).calls, Proper top c) : ∃ v, Holds top first (historyOf trace) last v := by
  induction run with
  | nil => exact ⟨_, startHolds top first⟩
  | @snoc trace mid a last before allowed taken ih =>
      rw [historySnoc] at proper ⊢
      obtain ⟨more, grown⟩ := afterCalls (historyOf trace) a
      have earlier : ∀ c ∈ (historyOf trace).calls, Proper top c := by
        intro c inside
        refine proper c ?_
        rw [grown]
        exact List.mem_append_left _ inside
      obtain ⟨v, holds⟩ := ih earlier
      exact stepHolds holds allowed earlier taken

/- The commands are served in the order of the calls, between the moves of the engine; every call returns at most once, and then what its
own command gave; the reader has seen the notifications up to one. -/
theorem runAnswered (run : Machine.Run (step top room) (Whole room) (.start first) trace last)
    (proper : ∀ c ∈ (historyOf trace).calls, Proper top c) :
    ∃ (answers : List Answer) (seen : List (Bool × Int)), play top first (historyOf trace).calls (historyOf trace).ops = some (last.top, answers) ∧
      ((historyOf trace).returned.map Prod.fst).Nodup ∧
      (∀ n value, (n, value) ∈ (historyOf trace).returned →
        ∃ c answer, (historyOf trace).calls[n]? = some c ∧ answers[n]? = some answer ∧ c.value answer = some value) ∧
      seen <+: (historyOf trace).notified ∧ (last.reader.running, last.reader.timestamp) = seen.foldl see (false, 0) := by
  obtain ⟨v, holds⟩ := runHolds run proper
  obtain ⟨seen, all, known⟩ := holds.noted
  exact ⟨v.answers, seen, holds.requests.played, holds.callers.once, holds.callers.returned, ⟨_, all.symm⟩, known⟩

/- One caller writes across the border of two entries while another waits for the same bytes. -/
def memCalls : List (Action Bool) :=
  [.call true (memWrite 0x10 0x1fff [1, 2, 3]), .sendValues true, .call false (memRead 0x10 0x1fff 3), .serve, .write 0, .notify true 5,
    .serve, .write 0, .write 0, .read, .read, .read, .read, .getPayload false, .waitReply true 0 [], .waitReply false 1 [1, 2, 3]]

theorem memProper : ∀ c ∈ [memWrite 0x10 0x1fff [1, 2, 3], memRead 0x10 0x1fff 3], Proper flatTop c := by
  have settled : ((flatRouter.req (fun _ => .ok) 3 (proxyReq (0x1fff : Nat) (3 : Nat))).bind fun returned => returned.result).isSome = true := by
    decide +kernel
  intro c inside
  rcases List.mem_cons.mp inside with rfl | later
  · exact memWriteProper rfl (by decide) (by decide) (by decide) (by decide) fun _ => settled
  · obtain rfl := List.mem_singleton.mp later
    exact memReadProper rfl (by decide) (by decide) (by decide) (by decide) fun _ => settled

theorem runAnsweredMemory : ∃ (answers : List Answer) (last : Nat → Byte),
    play flatTop (fun _ => 0) [memWrite 0x10 0x1fff [1, 2, 3], memRead 0x10 0x1fff 3] [.command, .command] = some (last, answers) ∧
      ∀ n value, (n, value) ∈ [(0, []), (1, [1, 2, 3])] →
        ∃ c answer, [memWrite 0x10 0x1fff [1, 2, 3], memRead 0x10 0x1fff 3][n]? = some c ∧ answers[n]? = some answer ∧ c.value answer = some value := by
  obtain ⟨run, -⟩ := Machine.reachTrace (step flatTop 4096) (Whole 4096) (.start fun _ => 0) memCalls (by decide +kernel)
  have calls : (historyOf (Machine.traceOf (step flatTop 4096) (.start fun _ => 0) memCalls)).calls =
      [memWrite 0x10 0x1fff [1, 2, 3], memRead 0x10 0x1fff 3] := by decide +kernel
  have ops : (historyOf (Machine.traceOf (step flatTop 4096) (.start fun _ => 0) memCalls)).ops = [.command, .command] := by decide +kernel
  have returned : (historyOf (Machine.traceOf (step flatTop 4096) (.start fun _ => 0) memCalls)).returned = [(0, []), (1, [1, 2, 3])] := by
    decide +kernel
  obtain ⟨answers, seen, played, -, own, -, -⟩ := runAnswered run (by rw [calls]; exact memProper)
  rw [calls, ops] at played
  rw [calls, returned] at own
  exact ⟨answers, _, played, own⟩

end Runs

section Quiet

variable {room : Nat} {first : σ} {trace : List (Action ι × Link σ ι)} {s last : Link σ ι} {h : History} {v : View}

def Action.inner : Action ι → Bool
  | .call _ _ | .notify _ _ | .advance => false
  | _ => true

/- A reply that goes out by itself. One that is only put into the stream waits there for the next that is flushed. -/
def Answer.flushed (answer : Answer) : Bool := answer.reply.any fun reply => decide (reply.1 ≠ .keep)

theorem flushedReply {answer : Answer} (flushed : answer.flushed = true) : ∃ channel msg, answer.reply = some (channel, msg) ∧ channel ≠ .keep := by
  unfold Answer.flushed at flushed
  cases reply : answer.reply with
  | none =>
      rw [reply] at flushed
      contradiction
  | some p =>
      rw [reply] at flushed
      exact ⟨p.1, p.2, rfl, of_decide_eq_true flushed⟩

theorem writeReady {server : Server} (busy : server.outbox ≠ [] ∨ server.cut ≠ []) : server.write room 1 ≠ none := by
  unfold Server.write
  split
  · rename_i whole
    cases shape : server.outbox with
    | nil => exact absurd (busy.resolve_right (not_not_intro whole)) (not_not_intro shape)
    | cons p rest =>
        obtain ⟨channel, text⟩ := p
        have enough : ¬(server.unflushed ++ text).length ≤ room → 0 < 1 ∧ 1 ≤ (server.unflushed ++ text).length := by omega
        cases channel with
        | direct => exact Option.some_ne_none _
        | flushLocked => exact Option.some_ne_none _
        | flush =>
            dsimp only
            split
            · exact Option.some_ne_none _
            · rename_i more
              rw [if_pos (enough more)]
              exact Option.some_ne_none _
        | keep =>
            dsimp only
            split
            · exact Option.some_ne_none _
            · rename_i more
              rw [if_pos (enough more)]
              exact Option.some_ne_none _
  · rename_i left
    rw [if_pos ⟨Nat.one_pos, List.length_pos_iff.mpr left⟩]
    exact Option.some_ne_none _

theorem readReady {server : Server} {toClient : List Byte} {reader : Reader} {m : Message} {wire : List Message}
    (holds : Replies server toClient reader v) (whole : server.cut = []) (shape : v.wire = m :: wire) : reader.read toClient ≠ none := by
  have good : m.Plain := by
    rcases holds.carries m (by simp [shape]) with note | ⟨channel, known⟩
    · exact notePlain note
    · exact fromPlain holds.plain known
  have all := holds.output
  rw [whole, List.append_nil, shape, List.flatMap_cons] at all
  rw [all, ProxyReader.readMessage good holds.alive]
  exact Option.some_ne_none _

theorem serveReady {answers : List Answer} {c : Call} (holds : Requests top first h s.top s.reqId (s.toServer ++ unsent s.lock s.callers) answers)
    (proper : ∀ c ∈ h.calls, Proper top c) (ready : s.server.outbox = []) (whole : s.server.cut = []) (sent : unsent s.lock s.callers = [])
    (here : h.calls[answers.length]? = some c) : s.serve top ≠ none := by
  have good := proper c (List.mem_of_getElem? here)
  have input := holds.input
  rw [sent, List.append_nil, requestsNext here] at input
  obtain ⟨t, answer, done, -⟩ := good.served s.top
  unfold Link.serve
  rw [if_pos ⟨ready, whole⟩, input, fgetsCommand _ good.clear (holds.short _ _ here)]
  simp only [Option.bind_eq_bind, Option.bind_some, parseCommandLine _ good.clear, good.bytes]
  rw [if_neg (by simp), List.take_left, done]
  exact Option.some_ne_none _

theorem returnedLength {callers : ι → Caller} {lock : Option ι} {answers : List Answer} (holds : Callers h callers lock answers) :
    h.returned.length ≤ h.calls.length := by
  have inside : h.returned.map Prod.fst ⊆ List.range h.calls.length := fun n inside => List.mem_range.mpr (returnedCalled holds inside)
  have bound := (List.subperm_of_subset holds.once inside).length_le
  rwa [List.length_map, List.length_range] at bound

theorem innerCalls {a : Action ι} (inner : a.inner = true) : (h.after a).calls = h.calls := by
  cases a with
  | call i c => contradiction
  | _ => rfl

variable [DecidableEq ι]

theorem unsentNone (sent : ∀ i, s.sendValues i = none) : unsent s.lock s.callers = [] := by
  unfold unsent
  cases lock : s.lock with
  | none => rfl
  | some i =>
      rw [Option.elim_some]
      have own := sent i
      unfold Link.sendValues at own
      cases at_caller : s.callers i with
      | values req bytes =>
          rw [at_caller] at own
          contradiction
      | idle => rfl
      | payload req => rfl
      | reply req kept => rfl

theorem quietReturned {n : Nat} {answer : Answer} {i : ι} (holds : Holds top first h s v) (waiting : (s.callers i).waits = some n)
    (at_answer : v.answers[n]? = some answer) (flushed : answer.flushed = true) (outbox : v.outbox = []) (wire : v.wire = []) :
    s.sendValues i ≠ none ∨ s.getPayload i ≠ none ∨ ∃ value, s.waitReply i n value ≠ none := by
  have asked := holds.callers.asked i
  cases at_caller : s.callers i with
  | idle =>
      rw [at_caller] at waiting
      contradiction
  | values req bytes =>
      refine .inl ?_
      unfold Link.sendValues
      rw [at_caller]
      exact Option.some_ne_none _
  | payload req =>
      rw [at_caller] at asked waiting
      obtain rfl : req = n := Option.some.inj waiting
      obtain ⟨cmd, at_call⟩ := asked
      obtain ⟨bytes, payload⟩ := Option.isSome_iff_exists.mp ((holds.requests.kinds _ _ _ at_call at_answer).mpr rfl)
      rcases holds.comes.payload i req at_caller answer bytes at_answer payload with inside | inside | there
      · rw [outbox] at inside
        exact absurd inside List.not_mem_nil
      · rw [wire] at inside
        exact absurd inside List.not_mem_nil
      · obtain ⟨found_bytes, there⟩ := Option.isSome_iff_exists.mp there
        refine .inr (.inl ?_)
        unfold Link.getPayload
        rw [at_caller]
        dsimp only
        rw [there]
        exact Option.some_ne_none _
  | reply req kept =>
      have waits := waiting
      rw [at_caller] at waiting
      obtain rfl : req = n := Option.some.inj waiting
      obtain ⟨channel, msg, reply, sent⟩ := flushedReply flushed
      rcases holds.comes.reply i req waits answer channel msg at_answer reply sent with inside | inside | there
      · rw [outbox] at inside
        exact absurd inside List.not_mem_nil
      · rw [wire] at inside
        exact absurd inside List.not_mem_nil
      · obtain ⟨text, there⟩ := Option.isSome_iff_exists.mp there
        refine .inr (.inr ⟨kept.getD text, ?_⟩)
        unfold Link.waitReply
        rw [at_caller]
        dsimp only
        rw [there, Option.bind_some, if_pos ⟨rfl, rfl⟩]
        exact Option.some_ne_none _

/- When nothing can go on by itself, every command was served, and every call whose reply is not left in the stream has returned what its
command gave. -/
theorem runQuiet (run : Machine.Run (step top room) (Whole room) (.start first) trace last)
    (proper : ∀ c ∈ (historyOf trace).calls, Proper top c) (stuck : ∀ a : Action ι, a.inner = true → step top room last a = none) :
    ∃ answers : List Answer, play top first (historyOf trace).calls (historyOf trace).ops = some (last.top, answers) ∧
      ∀ (n : Nat) c, (historyOf trace).calls[n]? = some c → ∃ answer, answers[n]? = some answer ∧
        (answer.flushed = true → ∃ value, (n, value) ∈ (historyOf trace).returned ∧ c.value answer = some value) := by
  obtain ⟨v, holds⟩ := runHolds run proper
  have written : last.server.write room 1 = none := Option.map_eq_none_iff.mp (stuck (.write 1) rfl)
  have read : last.reader.read last.toClient = none := Option.map_eq_none_iff.mp (stuck .read rfl)
  have sent : ∀ i, last.sendValues i = none := fun i => stuck (.sendValues i) rfl
  have ready : last.server.outbox = [] := by
    by_contra busy
    exact writeReady (.inl busy) written
  have whole : last.server.cut = [] := by
    by_contra busy
    exact writeReady (.inr busy) written
  have outbox : v.outbox = [] := by
    have all := holds.replies.outbox
    rw [ready] at all
    exact List.map_eq_nil_iff.mp all.symm
  have wire : v.wire = [] := by
    cases shape : v.wire with
    | nil => rfl
    | cons m rest => exact absurd read (readReady holds.replies whole shape)
  have served : (historyOf trace).calls.length ≤ v.answers.length := by
    by_contra more
    have here := List.getElem?_eq_getElem (Nat.lt_of_not_le more)
    exact serveReady holds.requests proper ready whole (unsentNone sent) here (stuck .serve rfl)
  refine ⟨v.answers, holds.requests.played, fun n c at_call => ?_⟩
  have inside := (List.getElem?_eq_some_iff.mp at_call).1
  have at_answer := List.getElem?_eq_getElem (Nat.lt_of_lt_of_le inside served)
  refine ⟨_, at_answer, fun flushed => ?_⟩
  rcases holds.callers.covered n inside with returned | ⟨i, waiting⟩
  · obtain ⟨⟨n, value⟩, member, rfl⟩ := List.mem_map.mp returned
    obtain ⟨d, answer, own_call, own_answer, gives⟩ := holds.callers.returned n value member
    cases Option.some.inj (at_call.symm.trans own_call)
    cases Option.some.inj (at_answer.symm.trans own_answer)
    exact ⟨value, member, gives⟩
  · rcases quietReturned holds waiting at_answer flushed outbox wire with moves | moves | ⟨value, moves⟩
    · exact absurd (sent i) moves
    · exact absurd (stuck (.getPayload i) rfl) moves
    · exact absurd (stuck (.waitReply i n value) rfl) moves

def plainTop : Top Bool where
  run := fun _ => true
  step := fun s duration => (s, duration)
  stopExec := fun _ => false
  quit := fun s _ => s
  getComponent := fun _ => 0
  component := fun _ => none
  addTracePath := fun s _ => s
  setTraceLevel := fun s _ => s
  addExcludeTracePath := fun s _ => s
  confTrace := fun s _ _ => s
  advance := fun s => s

def twoCalls : List (Action Bool) :=
  [.call true (.plain (ascii "step 7")), .call false (.plain (ascii "stop")), .serve, .write 0, .notify true 5, .serve, .write 0,
    .read, .read, .read, .waitReply false 1 [], .waitReply true 0 (ascii "7" ++ [lf])]

theorem twoProper {actions : List (Action Bool)}
    (calls : (historyOf (Machine.traceOf (step plainTop 4096) (.start false) actions)).calls = [.plain (ascii "step 7"), .plain (ascii "stop")]) :
    ∀ c ∈ (historyOf (Machine.traceOf (step plainTop 4096) (.start false) actions)).calls, Proper plainTop c := by
  rw [calls]
  intro c inside
  rcases List.mem_cons.mp inside with rfl | later
  · have printed : ascii "step 7" = ascii "step " ++ ProxyText.decimal 7 := by decide +kernel
    rw [printed]
    exact stepProper plainTop (by decide) (by decide)
  · obtain rfl := List.mem_singleton.mp later
    refine ⟨by decide +kernel, by decide +kernel, fun s => ⟨false, ⟨none, some (.direct, none)⟩, ?_, by decide⟩⟩
    cases s <;> decide +kernel

theorem twoQuiet (a : Action Bool) (inner : a.inner = true) :
    step plainTop 4096 (Machine.reach (step plainTop 4096) (Whole 4096) (.start false) twoCalls) a = none := by
  have idle : ∀ i, (Machine.reach (step plainTop 4096) (Whole 4096) (.start false) twoCalls).callers i = .idle := by decide +kernel
  have ready : (Machine.reach (step plainTop 4096) (Whole 4096) (.start false) twoCalls).server.outbox = [] := by decide +kernel
  have whole : (Machine.reach (step plainTop 4096) (Whole 4096) (.start false) twoCalls).server.cut = [] := by decide +kernel
  cases a with
  | call i c => contradiction
  | notify running time => contradiction
  | advance => contradiction
  | sendValues i =>
      dsimp only [step, Link.sendValues]
      rw [idle]
  | getPayload i =>
      dsimp only [step, Link.getPayload]
      rw [idle]
  | waitReply i req value =>
      dsimp only [step, Link.waitReply]
      rw [idle]
  | serve => exact Option.isNone_iff_eq_none.mp (by decide +kernel)
  | write n =>
      dsimp only [step, Server.write]
      rw [if_pos whole, ready]
      rfl
  | read => exact Option.isNone_iff_eq_none.mp (by decide +kernel)

/- At the end of the two calls. -/
theorem runQuietTwo : ∃ answers : List Answer, ∀ (n : Nat) c, [Call.plain (ascii "step 7"), .plain (ascii "stop")][n]? = some c →
    ∃ answer, answers[n]? = some answer ∧ (answer.flushed = true →
      ∃ value, (n, value) ∈ [(1, []), (0, ascii "7" ++ [lf])] ∧ c.value answer = some value) := by
  obtain ⟨run, -⟩ := Machine.reachTrace (step plainTop 4096) (Whole 4096) (.start false) twoCalls (by decide +kernel)
  have calls : (historyOf (Machine.traceOf (step plainTop 4096) (.start false) twoCalls)).calls =
      [.plain (ascii "step 7"), .plain (ascii "stop")] := by decide +kernel
  have returned : (historyOf (Machine.traceOf (step plainTop 4096) (.start false) twoCalls)).returned =
      [(1, []), (0, ascii "7" ++ [lf])] := by decide +kernel
  obtain ⟨answers, -, all⟩ := runQuiet run (twoProper calls) twoQuiet
  rw [calls, returned] at all
  exact ⟨answers, all⟩

/- What gets smaller while nothing comes from outside: first the commands that are not served, then what the server has to write, what the
client has to read, the calls that have not returned, and the lock. -/
def rank (h : History) (s : Link σ ι) (v : View) : Nat × Nat × Nat × Nat × Nat × Nat :=
  (h.calls.length - v.answers.length, s.server.outbox.length, s.server.cut.length, v.wire.length, h.calls.length - h.returned.length,
    if s.lock = none then 0 else 1)

def Below : Nat × Nat × Nat × Nat × Nat × Nat → Nat × Nat × Nat × Nat × Nat × Nat → Prop :=
  Prod.Lex (· < ·) (Prod.Lex (· < ·) (Prod.Lex (· < ·) (Prod.Lex (· < ·) (Prod.Lex (· < ·) (· < ·)))))

theorem belowEnds : WellFounded Below := by
  have less : WellFounded (fun m n : Nat => m < n) := Nat.lt_wfRel.wf
  exact less.prod_lex (less.prod_lex (less.prod_lex (less.prod_lex (less.prod_lex less))))

theorem writeShorter {server next : Server} {n : Nat} {text : List Byte} (written : server.write room n = some (next, text)) :
    next.outbox.length < server.outbox.length ∨ (next.outbox = server.outbox ∧ next.cut.length < server.cut.length) := by
  rcases writeCases written with ⟨-, channel, own, rest, first, left, -⟩ | ⟨more, positive, rfl, -⟩
  · refine .inl ?_
    rw [first, left, List.length_cons]
    exact Nat.lt_succ_self _
  · have some := List.length_pos_iff.mpr more
    refine .inr ⟨rfl, ?_⟩
    rw [List.length_drop]
    omega

theorem innerFalls {a : Action ι} {next : Link σ ι} (holds : Holds top first h s v) (whole : Whole room s a)
    (proper : ∀ c ∈ h.calls, Proper top c) (inner : a.inner = true) (taken : step top room s a = some next) :
    ∃ w, Holds top first (h.after a) next w ∧ Below (rank (h.after a) next w) (rank h s v) := by
  cases a with
  | call i c => contradiction
  | notify running time => contradiction
  | advance => contradiction
  | sendValues i =>
      have after := sendValuesHolds holds taken
      obtain ⟨req, bytes, at_values, rfl⟩ := sendValuesCases taken
      have held : s.lock = some i := (holds.callers.locked i).mp (by rw [at_values]; rfl)
      refine ⟨v, after, ?_⟩
      unfold Below rank
      rw [held]
      exact .right _ (.right _ (.right _ (.right _ (.right _ Nat.one_pos))))
  | getPayload i =>
      have after := getPayloadHolds holds taken
      obtain ⟨req, payload, at_payload, -, rfl⟩ := getPayloadCases taken
      have held : s.lock = some i := (holds.callers.locked i).mp (by rw [at_payload]; rfl)
      refine ⟨v, after, ?_⟩
      unfold Below rank
      rw [held]
      exact .right _ (.right _ (.right _ (.right _ (.right _ Nat.one_pos))))
  | waitReply i req value =>
      have after := waitReplyHolds holds taken
      obtain ⟨kept, reply, -, -, -, rfl⟩ := waitReplyCases taken
      have bound : (h.returned ++ [(req, value)]).length ≤ h.calls.length := returnedLength after.callers
      rw [List.length_append, List.length_singleton] at bound
      refine ⟨v, after, .right _ (.right _ (.right _ (.right _ (.left _ _ ?_))))⟩
      show h.calls.length - (h.returned ++ [(req, value)]).length < h.calls.length - h.returned.length
      rw [List.length_append, List.length_singleton]
      omega
  | serve =>
      obtain ⟨answer, after⟩ := serveHolds holds proper taken
      have bound := playCount after.requests.played
      refine ⟨_, after, .left _ _ ?_⟩
      show h.calls.length - (v.answers ++ [answer]).length < h.calls.length - v.answers.length
      dsimp only [History.after] at bound
      rw [List.length_append, List.length_singleton] at bound ⊢
      omega
  | write n =>
      obtain ⟨⟨server, text⟩, written, rfl⟩ := Option.map_eq_some_iff.mp taken
      have after := writeHolds holds whole written
      have answers : (if s.server.cut = [] then v.write else v).answers = v.answers := by
        split
        · unfold View.write
          split <;> rfl
        · rfl
      refine ⟨_, after, ?_⟩
      unfold Below rank
      rw [answers]
      rcases writeShorter written with less | ⟨same, less⟩
      · exact .right _ (.left _ _ less)
      · dsimp only
        rw [same]
        exact .right _ (.right _ (.left _ _ less))
  | read =>
      obtain ⟨⟨reader, rest⟩, read, rfl⟩ := Option.map_eq_some_iff.mp taken
      obtain ⟨m, wire, shape, after⟩ := readHolds holds read
      refine ⟨_, after, .right _ (.right _ (.right _ (.left _ _ ?_)))⟩
      show wire.length < v.wire.length
      rw [shape, List.length_cons]
      exact Nat.lt_succ_self _

/- Whatever the order of its steps, the proxy does not go on for ever without a new call or the engine. -/
theorem runRests (run : Machine.Run (step top room) (Whole room) (.start first) trace last)
    (proper : ∀ c ∈ (historyOf trace).calls, Proper top c) (f : Nat → Link σ ι) (start : f 0 = last) :
    ∃ k, ∀ a : Action ι, a.inner = true → Whole room (f k) a → step top room (f k) a ≠ some (f (k + 1)) := by
  obtain ⟨v, holds⟩ := runHolds run proper
  have ends : ∀ r k h v, rank h (f k) v = r → Holds top first h (f k) v → (∀ c ∈ h.calls, Proper top c) →
      ∃ k, ∀ a : Action ι, a.inner = true → Whole room (f k) a → step top room (f k) a ≠ some (f (k + 1)) := by
    intro r
    -- by induction on the rank, which each step of the sequence makes smaller
    induction r using belowEnds.induction with
    | _ r ih =>
        intro k h v same holds proper
        by_contra goes
        have moves : ∃ a : Action ι, a.inner = true ∧ Whole room (f k) a ∧ step top room (f k) a = some (f (k + 1)) := by
          by_contra none
          exact goes ⟨k, fun a inner whole taken => none ⟨a, inner, whole, taken⟩⟩
        obtain ⟨a, inner, whole, taken⟩ := moves
        obtain ⟨w, after, below⟩ := innerFalls holds whole proper inner taken
        rw [same] at below
        refine goes (ih _ below (k + 1) (h.after a) w rfl after ?_)
        rwa [innerCalls inner]
  refine ends _ 0 _ v rfl ?_ proper
  rwa [start]

/- The states after the two calls, one after the other. -/
theorem runRestsTwo : ∃ k, ∀ a : Action Bool, a.inner = true →
    Whole 4096 (Machine.reach (step plainTop 4096) (Whole 4096) (.start false) (twoCalls.take (k + 2))) a →
    step plainTop 4096 (Machine.reach (step plainTop 4096) (Whole 4096) (.start false) (twoCalls.take (k + 2))) a ≠
      some (Machine.reach (step plainTop 4096) (Whole 4096) (.start false) (twoCalls.take (k + 1 + 2))) := by
  obtain ⟨run, -⟩ := Machine.reachTrace (step plainTop 4096) (Whole 4096) (.start false) (twoCalls.take 2) (by decide +kernel)
  exact runRests run (twoProper (by decide +kernel)) (fun k => Machine.reach (step plainTop 4096) (Whole 4096) (.start false) (twoCalls.take (k + 2))) rfl

end Quiet

end Gvsoc.Proxy
