import Gvsoc.PacketRoundTrip
import Gvsoc.Machine

/-! A stream of packets, however the socket cuts it. -/
namespace Gvsoc.Rsp
open Bytes (Byte)
open Circular (CircularCharBuffer)
open Machine (Run anyStep)
open Transducer (run)

structure Fresh (p : Proxy) : Prop where
  idle : p.codec.Idle
  unused : Unused p.inBuffer
  received : p.received = []
  callbacks : p.callbacks = []

def Faithful (p : Proxy) : Prop := p.callbacks = (listen .leadin p.received).2

/- A `recv` that `decode` can read to its end, or to a rest that asks for no callback. -/
def Undisturbed (p : Proxy) (chunk : List Byte) : Prop :=
  Clean p.inBuffer.maxSize p.inBuffer.base p.codec.scan (p.inBuffer.queued ++ chunk)

def Fits (p : Proxy) (chunk : List Byte) : Prop := 0 < chunk.length ∧ chunk.length ≤ p.inBuffer.writeBlock.2.2

structure Following (p : Proxy) : Prop where
  valid : p.inBuffer.Valid
  sound : p.codec.Sound
  consumed : ∃ consumed, p.received = consumed ++ p.inBuffer.queued ∧ listen .leadin consumed = (p.codec.scan, p.callbacks)
  faithful : Faithful p

section Round

variable {p next : Proxy} {chunk : List Byte}

theorem freshFollowing (fresh : Fresh p) : Following p := by
  obtain ⟨sound, scan⟩ := idleSound fresh.idle
  obtain ⟨none, -⟩ := unusedQueued fresh.unused
  refine ⟨fresh.unused.valid, sound, ⟨[], by simp [fresh.received, none], by simp [scan, fresh.callbacks, listen, run]⟩, ?_⟩
  unfold Faithful
  rw [fresh.received, fresh.callbacks]
  rfl

theorem shortPrefix {s : Scan} {left right : List Byte} (short : Short s (left ++ right)) : Short s left := by
  intro k inside
  have small := short k (by rw [List.length_append]; omega)
  rwa [List.take_append_of_le_length inside] at small

theorem roundReceived (taken : p.round chunk = some next) : Fits p chunk ∧ next.received = p.received ++ chunk := by
  unfold Proxy.round at taken
  split at taken
  · rename_i fits
    obtain ⟨⟨_, _, _⟩, -, rest⟩ := Option.bind_eq_some_iff.mp taken
    cases rest
    exact ⟨fits, rfl⟩
  · contradiction

theorem followingShort (following : Following p) (short : Short .leadin (p.received ++ chunk)) :
    Short p.codec.scan (p.inBuffer.queued ++ chunk) := by
  obtain ⟨consumed, received, scan⟩ := following.consumed
  have read : (listen .leadin ((p.received ++ chunk).take consumed.length)).1 = p.codec.scan := by
    rw [received, List.append_assoc, List.take_left, scan]
  have dropped := shortDrop (by simp [received]) read short
  rwa [received, List.append_assoc, List.drop_left] at dropped

theorem followingHears (following : Following p) :
    (listen .leadin (p.received ++ chunk)).2 = p.callbacks ++ (listen p.codec.scan (p.inBuffer.queued ++ chunk)).2 := by
  obtain ⟨consumed, received, scan⟩ := following.consumed
  rw [received, List.append_assoc, listenAppend, scan]

theorem roundFollowing (following : Following p) (fits : Fits p chunk) (clean : Undisturbed p chunk)
    (short : Short .leadin (p.received ++ chunk)) : ∃ next, p.round chunk = some next ∧ Following next := by
  obtain ⟨valid, queued, head, size⟩ := CircularCharBuffer.receiveQueued following.valid fits.1 fits.2
  have bound : pendingCalls p.codec (p.inBuffer.receive chunk) < 2 * (p.inBuffer.receive chunk).size + 3 := by
    unfold pendingCalls
    split <;> omega
  obtain ⟨last, left, done, validLeft, -, soundLast, ⟨n, dropped, whole⟩, -⟩ := decodeLoopClean _ bound valid following.sound
    (by rw [queued]; exact followingShort following short) (by rw [queued, head, size]; exact clean)
  rw [queued] at done dropped whole
  refine ⟨⟨last, left, p.received ++ chunk, p.callbacks ++ (listen p.codec.scan (p.inBuffer.queued ++ chunk)).2⟩, ?_, ?_⟩
  · unfold Proxy.round RspPacketCodec.decode
    rw [if_pos ⟨fits.1, fits.2⟩, done]
    rfl
  · refine ⟨validLeft, soundLast, ?_, (followingHears following).symm⟩
    obtain ⟨consumed, received, scan⟩ := following.consumed
    refine ⟨consumed ++ (p.inBuffer.queued ++ chunk).take n, ?_, ?_⟩
    · simp only [dropped, received, List.append_assoc, List.take_append_drop]
    · rw [listenAppend, scan, whole]

theorem roundUndisturbed (following : Following p) (short : Short .leadin (p.received ++ chunk))
    (taken : p.round chunk = some next) (faithful : Faithful next) : Undisturbed p chunk := by
  obtain ⟨fits, -⟩ := roundReceived taken
  obtain ⟨valid, queued, head, size⟩ := CircularCharBuffer.receiveQueued following.valid fits.1 fits.2
  unfold Proxy.round RspPacketCodec.decode at taken
  rw [if_pos ⟨fits.1, fits.2⟩] at taken
  obtain ⟨⟨last, left, called⟩, done, rest⟩ := Option.bind_eq_some_iff.mp taken
  cases rest
  unfold Faithful at faithful
  rw [followingHears following] at faithful
  have clean := decodeLoopOnlyClean _ valid following.sound (by rw [queued]; exact followingShort following short) done
    (by rw [queued]; exact List.append_cancel_left faithful)
  rwa [queued, head, size] at clean

end Round

section Runs

variable {start last : Proxy} {trace : List (List Byte × Proxy)}

theorem runFollowing (fresh : Fresh start) (done : Run Proxy.round Undisturbed start trace last)
    (short : Short .leadin last.received) : Following last := by
  induction done with
  | nil => exact freshFollowing fresh
  | snoc before clean taken ih =>
      obtain ⟨fits, received⟩ := roundReceived taken
      rw [received] at short
      obtain ⟨next, same, following⟩ := roundFollowing (ih (shortPrefix short)) fits clean short
      rw [taken] at same
      cases same
      exact following

theorem runUndisturbed (fresh : Fresh start) (done : Run Proxy.round anyStep start trace last)
    (short : Short .leadin last.received) (faithful : ∀ chunk mid, (chunk, mid) ∈ trace → Faithful mid) :
    Run Proxy.round Undisturbed start trace last := by
  induction done with
  | nil => exact .nil _
  | @snoc trace mid chunk last before allowed taken ih =>
      obtain ⟨fits, received⟩ := roundReceived taken
      rw [received] at short
      have earlier := ih (shortPrefix short) (fun c m member => faithful c m (by simp [member]))
      have following := runFollowing fresh earlier (shortPrefix short)
      exact .snoc earlier (roundUndisturbed following short taken (faithful chunk last (by simp))) taken

theorem runReceived {ok : Proxy → List Byte → Prop} (done : Run Proxy.round ok start trace last) :
    ∃ rest, last.received = start.received ++ rest := by
  induction done with
  | nil => exact ⟨[], by simp⟩
  | snoc before allowed taken ih =>
      obtain ⟨rest, earlier⟩ := ih
      obtain ⟨-, received⟩ := roundReceived taken
      exact ⟨rest ++ _, by rw [received, earlier, List.append_assoc]⟩

theorem runFaithful (fresh : Fresh start) (done : Run Proxy.round Undisturbed start trace last)
    (short : Short .leadin last.received) {chunk : List Byte} {mid : Proxy} (member : (chunk, mid) ∈ trace) :
    Faithful mid := by
  obtain ⟨left, right, rfl⟩ := List.append_of_mem member
  obtain ⟨before, earlier, clean, taken, later⟩ := Machine.runPrefix done
  obtain ⟨rest, received⟩ := runReceived later
  rw [received] at short
  exact (runFollowing fresh (.snoc earlier clean taken) (shortPrefix short)).faithful

theorem chunksIndependent (fresh : Fresh start) (done : Run Proxy.round anyStep start trace last)
    (short : Short .leadin last.received) :
    (Run Proxy.round Undisturbed start trace last ↔ ∀ chunk mid, (chunk, mid) ∈ trace → Faithful mid) ∧
      (Run Proxy.round Undisturbed start trace last →
        (∀ start' trace' last', Fresh start' → Run Proxy.round Undisturbed start' trace' last' →
          last'.received = last.received → last'.callbacks = last.callbacks) ∧
        ∀ chunk, Fits last chunk → Undisturbed last chunk → Short .leadin (last.received ++ chunk) →
          ∃ next, last.round chunk = some next) := by
  refine ⟨⟨fun clean _ _ => runFaithful fresh clean short, runUndisturbed fresh done short⟩, fun clean => ⟨?_, ?_⟩⟩
  · intro start' trace' last' fresh' clean' same
    have here := (runFollowing fresh clean short).faithful
    have there := (runFollowing fresh' clean' (by rw [same]; exact short)).faithful
    unfold Faithful at here there
    rw [there, same, here]
  · intro chunk fits undisturbed small
    obtain ⟨next, taken, -⟩ := roundFollowing (runFollowing fresh clean short) fits undisturbed small
    exact ⟨next, taken⟩

def newProxy : Proxy := ⟨resetState, newBuffer, [], []⟩

theorem newProxyFresh : Fresh newProxy := ⟨.inr rfl, newBufferUnused, rfl, rfl⟩

def emptyPacket : List Byte := [0x24, 0x23, 0x30, 0x30]

/- Cut inside the checksum of the first and behind an acknowledgement of the second. -/
def cuts : List (List Byte) := [[0x24, 0x23, 0x30], [0x30], [0x2b], [0x24, 0x23, 0x30, 0x30]]

theorem chunksIndependentCut :
    let last := Machine.reach Proxy.round anyStep newProxy cuts
    last.callbacks = [.packet [], .ack, .packet []] ∧ Short .leadin last.received ∧
      Run Proxy.round Undisturbed newProxy (Machine.traceOf Proxy.round newProxy cuts) last ∧
      (Machine.traceOf Proxy.round newProxy cuts).map Prod.fst = cuts := by
  obtain ⟨done, labels⟩ := Machine.reachTrace Proxy.round anyStep newProxy cuts (by decide +kernel)
  have short : Short .leadin (Machine.reach Proxy.round anyStep newProxy cuts).received := shortStream (by decide +kernel)
  have faithful : ∀ entry ∈ Machine.traceOf Proxy.round newProxy cuts,
      entry.2.callbacks = (listen .leadin entry.2.received).2 := by decide +kernel
  exact ⟨by decide +kernel, short, (chunksIndependent newProxyFresh done short).1.mpr (fun _ _ member => faithful _ member), labels⟩

/- Both packets in one `recv`. -/
theorem packetLeft :
    ∃ trace trace' last last', Run Proxy.round anyStep newProxy trace last ∧ Run Proxy.round anyStep newProxy trace' last' ∧
      last.received = emptyPacket ++ emptyPacket ∧ last'.received = emptyPacket ++ emptyPacket ∧
      Short .leadin (emptyPacket ++ emptyPacket) ∧ last.callbacks = [.packet [], .packet []] ∧
      last'.callbacks = [.packet []] := by
  obtain ⟨trace, done, -⟩ := Machine.reachRun Proxy.round anyStep newProxy [emptyPacket, emptyPacket] (by decide +kernel)
  obtain ⟨trace', done', -⟩ := Machine.reachRun Proxy.round anyStep newProxy [emptyPacket ++ emptyPacket] (by decide +kernel)
  exact ⟨trace, trace', _, _, done, done', by decide +kernel, by decide +kernel, shortStream (by decide), by decide +kernel,
    by decide +kernel⟩

end Runs

end Gvsoc.Rsp
