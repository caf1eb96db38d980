import Gvsoc.Prefetcher
import Gvsoc.PerfCounters
import Gvsoc.Runs

/-! The cycles that a core is charged for its fetches. The latency of a request waits in a variable for the next
instruction that is executed; the fetch port answers at once here. -/
namespace Gvsoc.FetchLatency
open Prefetch (Addr nextLine nbBytes)
open PerfCounters (Csr Word enabled)

def csrPcerInstr : Nat := 1

def csrPcerImiss : Nat := 4

structure Answer where
  bytes : Option (Nat → Bytes.Byte)
  latency : BitVec 64

def Answer.port (a : Answer) : Prefetch.Answer :=
  match a.bytes with
  | some bytes => .now bytes
  | none => .invalid

/- What is not in the source. `owed` are the latencies of the requests made for an instruction since it was executed
last, and `latest` is the last one that the port accepted since any was; `due` and `missDue` is what the executed
instructions owed, `charged` and `missed` what was added to `insn_cycles` and to the counter of the misses. -/
structure History where
  owed : Addr → Nat
  latest : BitVec 64
  due : Int
  charged : Int
  missDue : Word
  missed : Word

structure Iss where
  fetcher : Prefetch.State
  currentInsn : Addr
  fetchCycles : Word
  insnCycles : Word
  csr : Csr
  history : History

def History.asked (h : History) (insn : Addr) (answer : Answer) : History :=
  { h with
    owed := Function.update h.owed insn (h.owed insn + answer.latency.toNat)
    latest := if answer.bytes.isSome then answer.latency else h.latest }

structure Handler where
  nextInsn : Addr
  cycles : Word
  flushes : Bool
  counters : List PerfCounters.Action

namespace Iss

variable (s : Iss)

def withFetcher (fetcher : Prefetch.State) : Iss := { s with fetcher := fetcher }

def issFetchReq (answer : Answer) : Iss :=
  let s := { s with history := s.history.asked s.currentInsn answer }
  if answer.bytes.isSome then { s with fetchCycles := answer.latency.setWidth 32 } else s

def prefetcherFill (addr : Addr) (answer : Answer) : Iss :=
  (s.withFetcher (s.fetcher.prefetcherFill addr answer.port).1).issFetchReq answer

def prefetcherFetchValueAfterFill0 (index : Int) (next : Answer) : Iss :=
  let insn := s.currentInsn
  if index + Prefetch.opcodeSize ≤ Prefetch.prefetcherSize then
    s.withFetcher ((s.fetcher.noteRead index 4).issDecodePcNoexec insn (s.fetcher.opcodeAt index 4))
  else
    let opcode := s.fetcher.opcodeAt index (nbBytes insn)
    let s := (s.withFetcher (s.fetcher.noteRead index (nbBytes insn))).prefetcherFill (nextLine insn) next
    s.withFetcher ((s.fetcher.noteRead 0 4).issDecodePcNoexec insn (opcode ||| s.fetcher.shl (s.fetcher.opcodeAt 0 4) (nbBytes insn * 8)))

def prefetcherFetchValue (line next : Answer) : Iss :=
  let insn := s.currentInsn
  let index := s.fetcher.index insn
  if 0 ≤ index ∧ index ≤ 12 then s.withFetcher ((s.fetcher.noteRead index 4).issDecodePcNoexec insn (s.fetcher.opcodeAt index 4))
  else if index < 0 ∨ index ≥ Prefetch.prefetcherSize then
    let s := s.prefetcherFill insn line
    s.prefetcherFetchValueAfterFill0 (s.fetcher.index insn) next
  else s.prefetcherFetchValueAfterFill0 index next

def prefetcherFetchNovalueCheckOverflow (index : Int) (next : Answer) : Iss :=
  if index + Prefetch.opcodeSize > Prefetch.prefetcherSize then s.prefetcherFill (s.fetcher.prefetcher.addr + 16) next else s

def prefetcherFetchNovalue (line next : Answer) : Iss :=
  let insn := s.currentInsn
  let index := s.fetcher.index insn
  if 0 ≤ index ∧ index ≤ 12 then s
  else if index < 0 ∨ index ≥ Prefetch.prefetcherSize then
    let s := s.prefetcherFill insn line
    s.prefetcherFetchNovalueCheckOverflow (s.fetcher.index insn) next
  else s.prefetcherFetchNovalueCheckOverflow index next

/- Of the current instruction. The second answer is for the next line, if the fetch asks for it. -/
def prefetcherFetch (line next : Answer) : Iss :=
  if s.fetcher.fetched s.currentInsn then s.prefetcherFetchNovalue line next
  else (s.withFetcher { s.fetcher with fetched := Function.update s.fetcher.fetched s.currentInsn true }).prefetcherFetchValue line next

def issCacheFlush : Iss := s.withFetcher (s.fetcher.flushCache (some s.currentInsn))

/- The latency is cleared before the counter gets it. -/
def chargeFetch : Iss :=
  if s.fetchCycles ≠ 0 then
    let s := { s with insnCycles := s.insnCycles + s.fetchCycles }
    let s := { s with fetchCycles := 0 }
    { s with csr := s.csr.issPccrAccountEvent csrPcerImiss s.fetchCycles }
  else s

def settled (charged : Iss) : History :=
  { s.history with
    owed := Function.update s.history.owed s.currentInsn 0
    latest := 0
    due := s.history.due + s.history.owed s.currentInsn
    charged := s.history.charged + (charged.insnCycles - s.insnCycles).toInt
    missDue := s.history.missDue +
      if enabled s.csr.pcer s.csr.pcmr csrPcerImiss then BitVec.ofNat 32 (s.history.owed s.currentInsn) else 0#32
    missed := s.history.missed + (charged.csr.pccr csrPcerImiss - s.csr.pccr csrPcerImiss) }

def handle (func : Handler) : Iss :=
  let s := if func.flushes then s.issCacheFlush else s
  { s with
    currentInsn := func.nextInsn
    insnCycles := s.insnCycles + func.cycles
    csr := func.counters.foldl PerfCounters.step s.csr }

def execNoFetchCommon (func : Handler) : Iss :=
  let s := { s with insnCycles := 1 }
  { s.chargeFetch with history := s.settled s.chargeFetch }.handle func

def issExecStepNofetch (func : Handler) (line next : Answer) : Iss := (s.execNoFetchCommon func).prefetcherFetch line next

def issExecStepNofetchPerf (func : Handler) (line next : Answer) : Iss :=
  let s := (s.execNoFetchCommon func).prefetcherFetch line next
  { s with csr := (s.csr.issExecAccountCycles s.insnCycles.toInt).issPccrAccountEvent csrPcerInstr 1 }

end Iss

/- A fetch of the current instruction by `check_state`, a new program counter, the part of `iss_irq_check` that takes an
interrupt, the two kinds of steps, a flush from outside and an access to the counters from outside. -/
inductive Action where
  | fetch (line next : Answer)
  | pcSet (insn : Addr)
  | irq (vector : Addr) (line next : Answer)
  | exec (func : Handler) (line next : Answer)
  | execPerf (func : Handler) (line next : Answer)
  | flush
  | counters (a : PerfCounters.Action)

def step (s : Iss) : Action → Iss
  | .fetch line next => s.prefetcherFetch line next
  | .pcSet insn => { s with currentInsn := insn }
  | .irq vector line next => { s with currentInsn := vector }.prefetcherFetch line next
  | .exec func line next => s.issExecStepNofetch func line next
  | .execPerf func line next => s.issExecStepNofetchPerf func line next
  | .flush => s.issCacheFlush
  | .counters a => { s with csr := PerfCounters.step s.csr a }

end Gvsoc.FetchLatency
