import Gvsoc.Machine
import Mathlib.Logic.Function.Basic

/-! The instructions of a core as the blocks of its instruction cache hold them, the pointers to them, and the flush of
the cache, which keeps the blocks. -/
namespace Gvsoc.InsnBlocks

abbrev Addr := BitVec 32
abbrev Opcode := BitVec 32

inductive Handler where
  | issDecodePc
  | issExecInsnIllegal
  | issExecInsnWithTrace
  | issResourceOffload
  | issExecStalledInsn
  | issExecStalledInsnFast
  | hwloopCheckExec
  | exec (id : Nat)
  deriving DecidableEq

structure Ref where
  block : Nat
  insnId : BitVec 8
  deriving DecidableEq

structure Insn where
  addr : Addr
  opcode : Opcode
  fetched : Bool
  fastHandler : Handler
  handler : Handler
  resourceHandler : Handler
  hwloopHandler : Option Handler
  stallHandler : Handler
  stallFastHandler : Handler
  savedHandler : Handler
  size : Addr
  next : Option Ref
  branch : Option Ref
  latency : Int
  inputLatency : Int
  inputLatencyReg : Int

structure Block where
  pc : Addr
  insns : BitVec 8 → Insn
  isInit : Bool

/- The blocks are numbered as they are allocated; a number that is not used yet stands for memory of any content.
`blocks` has the lists that the links between the blocks make. -/
structure Cache where
  heap : Nat → Block
  allocated : Nat
  blocks : Nat → List Nat

def issInsnNbBlocks : Nat := 4096

/- The decoder of a generated instruction, as far as it concerns handlers and other instructions: `outLatencies` are the
output registers with a latency, `nextAt` and `branchAt` what the function `decode` of a jump or branch looks up. -/
structure Item where
  handler : Handler
  fastHandler : Handler
  resource : Bool
  size : Addr
  latency : Int
  inRegs : Opcode → List Int
  outLatencies : Opcode → List (Int × Int)
  nextAt : Opcode → Option Addr
  branchAt : Opcode → Option Addr

structure Config where
  decodeOpcode : Opcode → Option Item
  pipelineStages : Int
  debugHandler : Option Addr

def Insn.init (insn : Insn) (addr : Addr) : Insn :=
  { insn with
    handler := .issDecodePc, fastHandler := .issDecodePc, addr := addr, next := none, hwloopHandler := none
    fetched := false, inputLatencyReg := -1 }

/- `pc + (i << ISS_INSN_PC_BITS)`. -/
def insnAddr (pc : Addr) (i : BitVec 8) : Addr := pc + i.setWidth 32 <<< 1

def Block.init (b : Block) (pc : Addr) : Block :=
  { b with isInit := true, insns := fun i => (b.insns i).init (insnAddr pc i) }

def pcBase (pc : Addr) : Addr := pc &&& ~~~511#32

def blockId (pc : Addr) : Nat := (pc &&& 4095#32).toNat

namespace Cache

variable (c : Cache)

def insn (r : Ref) : Insn := (c.heap r.block).insns r.insnId

def modify (r : Ref) (f : Insn → Insn) : Cache :=
  let b := c.heap r.block
  { c with heap := Function.update c.heap r.block { b with insns := Function.update b.insns r.insnId (f (b.insns r.insnId)) } }

def insnBlockInit (b : Nat) (pc : Addr) : Cache := { c with heap := Function.update c.heap b ((c.heap b).init pc) }

/- The block of the address, or one that is free, or a new one. -/
def insnCacheGet (pc : Addr) : Cache × Ref :=
  let insnId := (pc >>> 1).setWidth 8
  let list := c.blocks (blockId (pcBase pc))
  match list.find? fun b => (c.heap b).isInit && (c.heap b).pc == pcBase pc with
  | some b => (c, ⟨b, insnId⟩)
  | none =>
      let (c, b) := match (list.filter fun b => !(c.heap b).isInit).getLast? with
        | some b => (c, b)
        | none =>
            let id := blockId (pcBase pc)
            ({ c with allocated := c.allocated + 1, blocks := Function.update c.blocks id (c.allocated :: c.blocks id) }, c.allocated)
      let c := { c with heap := Function.update c.heap b { c.heap b with pc := pcBase pc } }
      (c.insnBlockInit b (pcBase pc), ⟨b, insnId⟩)

def flushList (list : List Nat) : Cache := list.foldl (fun c b => c.insnBlockInit b (c.heap b).pc) c

def flushCache : Cache := (List.range issInsnNbBlocks).foldl (fun c i => c.flushList (c.blocks i)) c

/- The instruction behind learns about a result that comes late. -/
def setInputLatency (addr : Addr) (out : Int × Int) : Cache :=
  let (c, next) := c.insnCacheGet addr
  c.modify next fun insn => { insn with inputLatencyReg := out.1, inputLatency := out.2 }

def setNext (r : Ref) (addr : Addr) : Cache :=
  let (c, next) := c.insnCacheGet addr
  c.modify r fun insn => { insn with next := some next }

def setBranch (r : Ref) (addr : Addr) : Cache :=
  let (c, branch) := c.insnCacheGet addr
  c.modify r fun insn => { insn with branch := some branch }

end Cache

def Insn.setHandlers (insn : Insn) (item : Item) : Insn :=
  let insn := { insn with fastHandler := item.fastHandler, handler := item.handler }
  let insn := match insn.hwloopHandler with
    | some hwloopHandler =>
        { insn with hwloopHandler := some insn.handler, handler := hwloopHandler, fastHandler := hwloopHandler }
    | none => insn
  let insn := if item.resource then
      { insn with resourceHandler := insn.handler, fastHandler := .issResourceOffload, handler := .issResourceOffload }
    else insn
  { insn with size := item.size, latency := item.latency }

def Insn.addLatency (insn : Insn) (pipelineStages : Int) (inRegs : List Int) : Insn :=
  if insn.inputLatencyReg = -1 then insn
  else if insn.inputLatencyReg ∈ inRegs then { insn with latency := insn.latency + insn.inputLatency }
  else if insn.inputLatency > pipelineStages then
    { insn with latency := insn.latency + (insn.inputLatency - pipelineStages + 1) }
  else insn

def Insn.setStall (insn : Insn) : Insn :=
  if insn.latency ≠ 0 then
    { insn with
      stallHandler := insn.handler, stallFastHandler := insn.fastHandler
      handler := .issExecStalledInsn, fastHandler := .issExecStalledInsnFast }
  else insn

def Insn.setTrace (insn : Insn) : Insn :=
  { insn with savedHandler := insn.handler, handler := .issExecInsnWithTrace, fastHandler := .issExecInsnWithTrace }

/- The check of a loop before the instruction's own handler, or left to its decoder when it is not decoded yet. -/
def Insn.setCheck (insn : Insn) : Insn :=
  if insn.fetched then
    match insn.hwloopHandler with
    | none => { insn with hwloopHandler := some insn.handler, handler := .hwloopCheckExec, fastHandler := .hwloopCheckExec }
    | some _ => insn
  else { insn with hwloopHandler := some .hwloopCheckExec }

namespace Cache

variable (c : Cache)

def decodeInsn (pipelineStages : Int) (r : Ref) (opcode : Opcode) (item : Item) : Cache :=
  let addr := (c.insn r).addr
  let c := c.modify r fun insn => insn.setHandlers item
  let c := (item.outLatencies opcode).foldl (fun c out => c.setInputLatency (addr + item.size) out) c
  let c := c.modify r fun insn => insn.addLatency pipelineStages (item.inRegs opcode)
  let c := c.setNext r (addr + item.size)
  let c := match item.nextAt opcode with
    | some offset => c.setNext r (addr + offset)
    | none => c
  let c := match item.branchAt opcode with
    | some offset => c.setBranch r (addr + offset)
    | none => c
  c.modify r Insn.setStall

/- `traced` tells whether the trace or the event of the instructions is active. -/
def issDecodePcNoexec (config : Config) (traced : Bool) (r : Ref) : Cache :=
  let opcode := (c.insn r).opcode
  match config.decodeOpcode opcode with
  | none => c.modify r fun insn => { insn with handler := .issExecInsnIllegal, fastHandler := .issExecInsnIllegal }
  | some item =>
      let c := c.decodeInsn config.pipelineStages r opcode item
      if traced then c.modify r Insn.setTrace else c

def again (p : Option Ref) (addr : Addr) : Cache × Option Ref :=
  match p with
  | none => (c, none)
  | some _ =>
      let (c, r) := c.insnCacheGet addr
      (c, some r)

def hwloopSetInsnEnd (r : Ref) : Cache := c.modify r Insn.setCheck

end Cache

structure Core where
  cache : Cache
  prefetcherAddr : Addr
  decodePrefetcherAddr : Addr
  currentInsn : Option Ref
  prevInsn : Option Ref
  stallInsn : Option Ref
  prefetchInsn : Option Ref
  hwloopEndInsn : Fin 2 → Option Ref
  vectors : Nat → Option Ref
  vectorBase : Addr
  debugHandler : Option Ref
  traced : Bool

namespace Core

variable (s : Core)

def addrOf (p : Option Ref) : Option Addr := p.map fun r => (s.cache.insn r).addr

def currentAgain (config : Config) (addr : Addr) (opcode : Opcode) : Core :=
  match s.currentInsn with
  | none => s
  | some _ =>
      let (cache, r) := s.cache.insnCacheGet addr
      let cache := cache.modify r fun insn => { insn with opcode := opcode, fetched := true }
      { s with currentInsn := some r, cache := cache.issDecodePcNoexec config s.traced r }

def prevAgain (addr : Addr) : Core :=
  let (cache, p) := s.cache.again s.prevInsn addr
  { s with cache := cache, prevInsn := p }

def stallAgain (addr : Addr) : Core :=
  let (cache, p) := s.cache.again s.stallInsn addr
  { s with cache := cache, stallInsn := p }

def prefetchAgain (addr : Addr) : Core :=
  let (cache, p) := s.cache.again s.prefetchInsn addr
  { s with cache := cache, prefetchInsn := p }

def endAgain (i : Fin 2) (addr : Addr) : Core :=
  match s.hwloopEndInsn i with
  | none => s
  | some _ =>
      let (cache, r) := s.cache.insnCacheGet addr
      { s with hwloopEndInsn := Function.update s.hwloopEndInsn i (some r), cache := cache.hwloopSetInsnEnd r }

def setVector (i : Nat) : Core :=
  let (cache, r) := s.cache.insnCacheGet (s.vectorBase + BitVec.ofNat 32 (i * 4))
  { s with cache := cache, vectors := Function.update s.vectors i (some r) }

def issIrqFlush (config : Config) : Core :=
  let s := (List.range 32 ++ List.range' 32 3).foldl setVector s
  match config.debugHandler with
  | none => s
  | some addr =>
      let (cache, r) := s.cache.insnCacheGet addr
      { s with cache := cache, debugHandler := some r }

/- Behind `flush_cache`. `stall_addr` is used for two pointers. -/
def findAgain (config : Config) (opcode : Opcode) (currentAddr prevAddr stallAddr : Addr) (hwloopEndAddr : Fin 2 → Addr) : Core :=
  let s := s.currentAgain config currentAddr opcode
  let s := s.prevAgain prevAddr
  let s := s.stallAgain stallAddr
  let s := s.prefetchAgain stallAddr
  let s := s.endAgain 0 (hwloopEndAddr 0)
  let s := s.endAgain 1 (hwloopEndAddr 1)
  s.issIrqFlush config

def issCacheFlush (config : Config) : Core :=
  let opcode := (s.currentInsn.map fun r => (s.cache.insn r).opcode).getD 0
  let currentAddr := (s.addrOf s.currentInsn).getD 0
  let prevAddr := (s.addrOf s.prevInsn).getD 0
  let stallAddr := (s.addrOf s.stallInsn).getD 0
  -- The address of the fetched instruction goes into the variable of the stalled one.
  let stallAddr := (s.addrOf s.prefetchInsn).getD stallAddr
  let hwloopEndAddr := fun i => (s.addrOf (s.hwloopEndInsn i)).getD 0
  let s := { s with prefetcherAddr := -1, decodePrefetcherAddr := -1, cache := s.cache.flushCache }
  s.findAgain config opcode currentAddr prevAddr stallAddr hwloopEndAddr

def opened (heap : Nat → Block) (traced : Bool) : Core :=
  { cache := { heap := heap, allocated := 0, blocks := fun _ => [] }
    prefetcherAddr := -1, decodePrefetcherAddr := -1
    currentInsn := none, prevInsn := none, stallInsn := none, prefetchInsn := none, hwloopEndInsn := fun _ => none
    vectors := fun _ => none, vectorBase := 0, debugHandler := none, traced := traced }

def setCurrent (addr : Addr) : Core :=
  let (cache, r) := s.cache.insnCacheGet addr
  { s with cache := cache, currentInsn := some r }

def fetched (config : Config) (p : Option Ref) (opcode : Opcode) : Core :=
  match p with
  | none => s
  | some r =>
      let cache := s.cache.modify r fun insn => { insn with opcode := opcode, fetched := true }
      { s with cache := cache.issDecodePcNoexec config s.traced r }

def hwloopSetEnd (i : Fin 2) (addr : Addr) : Core :=
  let (cache, r) := s.cache.insnCacheGet addr
  { s with hwloopEndInsn := Function.update s.hwloopEndInsn i (some r), cache := cache.hwloopSetInsnEnd r }

end Core

/- Where the pointers come from. A jump, an interrupt and a new program counter all set the current instruction by its
address; `resumed` is the answer of a fetch that had to wait. -/
inductive Action where
  | setCurrent (addr : Addr)
  | fetched (opcode : Opcode)
  | waits
  | resumed (opcode : Opcode)
  | executed (next : Addr)
  | stalled
  | hwloopSetEnd (i : Fin 2) (addr : Addr)
  | flush

def step (config : Config) (s : Core) : Action → Core
  | .setCurrent addr => s.setCurrent addr
  | .fetched opcode => s.fetched config s.currentInsn opcode
  | .waits => { s with prefetchInsn := s.currentInsn }
  | .resumed opcode => s.fetched config s.prefetchInsn opcode
  | .executed next => { s with prevInsn := s.currentInsn }.setCurrent next
  | .stalled => { s with stallInsn := s.currentInsn }
  | .hwloopSetEnd i addr => s.hwloopSetEnd i addr
  | .flush => s.issCacheFlush config

end Gvsoc.InsnBlocks
