import Mathlib.Algebra.Group.Nat.Defs
import Mathlib.Data.Fin.Basic
import Mathlib.Data.List.FinRange
import Mathlib.Logic.Function.Basic

/-!
# Interrupts held back from Linux

What a CPU holds back from Linux is counted in `irqcnt` and marked in two levels of bits.
`linux_sti` takes it from there.  A CPU has a stack of what it is in the middle of, and
goes on with the top; an interrupt pushes onto it wherever that is.

`dispatch_global_irq` runs with hard interrupts disabled and is one step, up to the handler
or to `hard_sti`.  The steps of `linux_sti`, `rt_pend_linux_irq` and `rt_pend_linux_srq` are
the single accesses to what is shared with interrupts and with other CPUs.
-/

namespace Rtai.Irq

open Function

def FIRST_EXT_VECTOR : Nat := 0x20

def HVEC_SHIFT : Nat := 5

def LVEC_MASK : Nat := 2 ^ HVEC_SHIFT - 1

/-- An index of `irqcnt`. -/
abbrev Vector := Fin 256

/-- A bit of `pending_srqs` and `activ_srqs`. -/
abbrev Srq := Fin 32

/-- `vector >> HVEC_SHIFT`. -/
def shifted (vector : Vector) : Fin 8 := ⟨vector / 2 ^ HVEC_SHIFT, by unfold HVEC_SHIFT; omega⟩

/-- `vector & LVEC_MASK`. -/
def masked (vector : Vector) : Fin 32 := ⟨vector % (LVEC_MASK + 1), Nat.mod_lt _ (by decide)⟩

/-- `(hvec << HVEC_SHIFT) | lvec`. -/
def joined (hvec : Fin 8) (lvec : Fin 32) : Vector :=
  ⟨hvec * 2 ^ HVEC_SHIFT + lvec, by unfold HVEC_SHIFT; omega⟩

def VECTRANS (smp : Bool) (vec : Vector) : Vector :=
  if smp then ⟨0xFF - vec, by omega⟩ else vec

/-- The first bit that is set. -/
def ffnz {n : Nat} (word : Fin n → Bool) : Option (Fin n) := (List.finRange n).find? (word ·)

@[simp] theorem joined_parts (x : Vector) : joined (shifted x) (masked x) = x := by
  simp only [joined, shifted, masked, LVEC_MASK, HVEC_SHIFT, Fin.ext_iff]
  omega

@[simp] theorem shifted_joined (h : Fin 8) (l : Fin 32) : shifted (joined h l) = h := by
  simp only [joined, shifted, HVEC_SHIFT, Fin.ext_iff]
  omega

@[simp] theorem masked_joined (h : Fin 8) (l : Fin 32) : masked (joined h l) = l := by
  simp only [joined, masked, LVEC_MASK, HVEC_SHIFT, Fin.ext_iff]
  omega

variable {x y : Vector}

theorem parts_eq_iff : shifted x = shifted y ∧ masked x = masked y ↔ x = y := by
  constructor
  · intro ⟨high, low⟩
    rw [← joined_parts x, high, low, joined_parts]
  · intro same
    exact ⟨congrArg shifted same, congrArg masked same⟩

@[simp] theorem vectrans_vectrans (smp : Bool) (x : Vector) :
    VECTRANS smp (VECTRANS smp x) = x := by
  cases smp with
  | false => rfl
  | true =>
      simp only [VECTRANS, if_true, Fin.ext_iff]
      omega

theorem vectrans_eq_iff {smp : Bool} : VECTRANS smp x = y ↔ x = VECTRANS smp y := by
  constructor
  · intro e
    rw [← e, vectrans_vectrans]
  · intro e
    rw [e, vectrans_vectrans]

theorem ffnz_none {n : Nat} {word : Fin n → Bool} (h : ffnz word = none) (i : Fin n) :
    word i = false :=
  Bool.eq_false_of_not_eq_true (List.find?_eq_none.mp h i (List.mem_finRange i))

/-! ## The state -/

/-- Where a run of `linux_sti` is; `h`, `l` and `vec` are its `hvec`, `lvec` and `vec`. -/
inductive Pc where
  /-- `while (!test_and_set_bit(cpuid, &global.cpu_in_sti))` -/
  | enter
  /-- `while ((hvec = cpu->hvec))` -/
  | readHvec
  | clearHvec (h : Fin 8)
  /-- `while ((lvec = cpu->lvec[hvec]))` -/
  | readLvec (h : Fin 8)
  | clearLvec (h : Fin 8) (l : Fin 32)
  /-- `while (cpu->irqcnt[vec] > 0)` -/
  | test (h : Fin 8) (l : Fin 32) (vec : Vector)
  | dec (h : Fin 8) (l : Fin 32) (vec : Vector)
  /-- `do_linux_irq(vec)` -/
  | doLinuxIrq (h : Fin 8) (l : Fin 32) (vec : Vector)
  /-- `test_bit(vec, &global.pending_srqs)` -/
  | testPending (h : Fin 8) (l : Fin 32) (srq : Srq)
  /-- `test_and_set_bit(vec, &global.activ_srqs)` -/
  | setActiv (h : Fin 8) (l : Fin 32) (srq : Srq)
  | clearPending (h : Fin 8) (l : Fin 32) (srq : Srq)
  /-- `sysrq[vec].rtai_handler()` -/
  | rtaiHandler (h : Fin 8) (l : Fin 32) (srq : Srq)
  | clearActiv (h : Fin 8) (l : Fin 32) (srq : Srq)
  /-- `if (cpu->irqcnt[vec] > 0)` -/
  | testAgain (h : Fin 8) (l : Fin 32) (vec : Vector)
  | setLvec (h : Fin 8) (l : Fin 32)
  /-- `if (cpu->lvec[hvec])` -/
  | testLvec (h : Fin 8)
  | setHvec (h : Fin 8)
  | enable
  /-- `clear_bit(cpuid, &global.cpu_in_sti)` -/
  | release
  /-- `if (!cpu->hvec)` -/
  | testHvec
  /-- Behind the outer loop. -/
  | leave
deriving DecidableEq

/-- Where `rt_pend_linux_irq` and `rt_pend_linux_srq` are, behind their first step. -/
inductive Marking where
  /-- `cpu->irqcnt[vector] = 1` -/
  | count
  /-- `set_bit(vector & LVEC_MASK, &cpu->lvec[shifted])` -/
  | lvec
  /-- `set_bit(shifted, &cpu->hvec)` -/
  | hvec
deriving DecidableEq

/-- Something that a CPU is in the middle of. -/
inductive Frame (I : Type) where
  | sti (pc : Pc)
  | pend (vector : Vector) (stage : Marking)
  /-- `linux_isr[vector]`. -/
  | isr (vector : Vector)
  /-- The handler of a system request. -/
  | srq (srq : Srq)
  /-- `dispatch_global_irq` in a real-time handler. -/
  | handler (irq : I)
  /-- `dispatch_global_irq` behind `hard_sti`. -/
  | kbrd
deriving DecidableEq

/-- `cpu_own_status`, the bit of `cpu_in_sti` and the stack, from its top on. -/
structure Cpu (I : Type) where
  /-- `intr_flag` is `INTR_ENABLED`. -/
  intrFlag : Bool := true
  inSti : Bool := false
  hvec : Fin 8 → Bool := fun _ => false
  lvec : Fin 8 → Fin 32 → Bool := fun _ _ => false
  irqcnt : Vector → Nat := fun _ => 0
  frames : List (Frame I) := []

/-- What the CPUs share. -/
structure Global where
  pendingSrqs : Srq → Bool := fun _ => false
  activSrqs : Srq → Bool := fun _ => false
  kbrdirq : Bool := false

/-- The configuration: `I` are the irqs that can arrive. -/
structure Config (I : Type) where
  smp : Bool
  /-- `KBRD_IRQ`. -/
  kbrd : I
  globalVector : I → Vector
  external : ∀ irq, FIRST_EXT_VECTOR ≤ (globalVector irq).val
  injective : Injective globalVector
  /-- `global_irq[irq].handler` is set. -/
  rtHandler : I → Bool
  /-- `global_irq[irq].ext`. -/
  ext : I → Bool
  /-- `sysrq[srq].rtai_handler` is set. -/
  rtaiHandler : Srq → Bool

def ULONG_SIZE : Nat := 2 ^ 32

namespace Cpu

variable {I : Type}

/-- The bit of a vector. -/
def bit (k : Cpu I) (x : Vector) : Bool := k.lvec (shifted x) (masked x)

def setLvec (k : Cpu I) (h : Fin 8) (l : Fin 32) (v : Bool) : Cpu I :=
  { k with lvec := update k.lvec h (update (k.lvec h) l v) }

def setHvec (k : Cpu I) (h : Fin 8) (v : Bool) : Cpu I := { k with hvec := update k.hvec h v }

def setCount (k : Cpu I) (x : Vector) (n : Nat) : Cpu I :=
  { k with irqcnt := update k.irqcnt x n }

/-- `cpu->irqcnt[vector]++`. -/
def increment (k : Cpu I) (x : Vector) : Cpu I := k.setCount x ((k.irqcnt x + 1) % ULONG_SIZE)

def decrement (k : Cpu I) (x : Vector) : Cpu I :=
  k.setCount x ((k.irqcnt x + (ULONG_SIZE - 1)) % ULONG_SIZE)

/-- What `dispatch_global_irq` does with an irq for Linux. -/
def mark (k : Cpu I) (x : Vector) : Cpu I :=
  ((k.increment x).setLvec (shifted x) (masked x) true).setHvec (shifted x) true

/-- The top of the stack is changed for `fs`. -/
def goto (k : Cpu I) (fs : List (Frame I)) : Cpu I := { k with frames := fs ++ k.frames.tail }

def push (k : Cpu I) (f : Frame I) : Cpu I := { k with frames := f :: k.frames }

def stiAt (k : Cpu I) (pc : Pc) : Cpu I := k.goto [.sti pc]

/-- A frame is done. -/
def pop (k : Cpu I) : Cpu I := k.goto []

end Cpu

/-! ## The steps -/

/-- The counter of a system request, before `VECTRANS`. -/
def Srq.vector (srq : Srq) : Vector := ⟨srq, by omega⟩

section Steps

variable {I : Type} (cfg : Config I)

/-- A step of `linux_sti`. -/
def stiStep (g : Global) (k : Cpu I) : Pc → Global × Cpu I
  | .enter => (g, if k.inSti then k.stiAt .leave else { k with inSti := true }.stiAt .readHvec)
  | .readHvec => (g, k.stiAt ((ffnz k.hvec).elim .enable .clearHvec))
  | .clearHvec h => (g, (k.setHvec h false).stiAt (.readLvec h))
  | .readLvec h => (g, k.stiAt ((ffnz (k.lvec h)).elim (.testLvec h) (.clearLvec h)))
  | .clearLvec h l => (g, (k.setLvec h l false).stiAt (.test h l (joined h l)))
  | .test h l vec => (g, k.stiAt (if k.irqcnt vec > 0 then .dec h l vec else .testAgain h l vec))
  | .dec h l vec =>
      let k := k.decrement vec
      let vec := VECTRANS cfg.smp vec
      (g, k.stiAt (if srq : vec.val < FIRST_EXT_VECTOR then .testPending h l ⟨vec, srq⟩
        else .doLinuxIrq h l vec))
  | .doLinuxIrq h l vec => (g, k.goto [.isr vec, .sti (.test h l vec)])
  | .testPending h l srq =>
      (g, k.stiAt (if g.pendingSrqs srq then .setActiv h l srq else .test h l srq.vector))
  | .setActiv h l srq =>
      if g.activSrqs srq then (g, k.stiAt (.test h l srq.vector))
      else ({ g with activSrqs := update g.activSrqs srq true }, k.stiAt (.clearPending h l srq))
  | .clearPending h l srq =>
      ({ g with pendingSrqs := update g.pendingSrqs srq false }, k.stiAt (.rtaiHandler h l srq))
  | .rtaiHandler h l srq =>
      (g, if cfg.rtaiHandler srq then k.goto [.srq srq, .sti (.clearActiv h l srq)]
        else k.stiAt (.clearActiv h l srq))
  | .clearActiv h l srq =>
      ({ g with activSrqs := update g.activSrqs srq false }, k.stiAt (.testPending h l srq))
  | .testAgain h l vec => (g, k.stiAt (if k.irqcnt vec > 0 then .setLvec h l else .readLvec h))
  | .setLvec h l => (g, (k.setLvec h l true).stiAt (.readLvec h))
  | .testLvec h => (g, k.stiAt (if (ffnz (k.lvec h)).isSome then .setHvec h else .readHvec))
  | .setHvec h => (g, (k.setHvec h true).stiAt .readHvec)
  | .enable => (g, { k with intrFlag := true }.stiAt .release)
  | .release => (g, { k with inSti := false }.stiAt .testHvec)
  | .testHvec => (g, if (ffnz k.hvec).isSome then k.stiAt .enter else k.pop)
  | .leave => (g, { k with intrFlag := true }.pop)

/-- A step of `rt_pend_linux_irq` or `rt_pend_linux_srq` behind the first. -/
def pendStep (k : Cpu I) (vector : Vector) : Marking → Cpu I
  | .count => (k.setCount vector 1).goto [.pend vector .lvec]
  | .lvec => (k.setLvec (shifted vector) (masked vector) true).goto [.pend vector .hvec]
  | .hvec => (k.setHvec (shifted vector) true).pop

/-- `dispatch_global_irq` from the test of `lflags` on. -/
def dispatched (k : Cpu I) : Cpu I :=
  if k.intrFlag then { k with intrFlag := false }.push .kbrd else k

/-- `dispatch_global_irq` up to the handler or to `hard_sti`. -/
def dispatchGlobalIrq [DecidableEq I] (g : Global) (k : Cpu I) (irq : I) : Global × Cpu I :=
  if cfg.rtHandler irq then (g, k.push (.handler irq))
  else if irq = cfg.kbrd then ({ g with kbrdirq := true }, dispatched k)
  else
    (g, dispatched (k.mark (VECTRANS cfg.smp (cfg.globalVector irq))))

/-- `dispatch_global_irq` behind the real-time handler. -/
def handled (k : Cpu I) (irq : I) (retval : Bool) : Cpu I :=
  if cfg.ext irq ∧ retval then k.pop else dispatched k.pop

/-- `rt_pend_linux_irq`, its first step. -/
def rtPendLinuxIrq (k : Cpu I) (irq : I) : Cpu I :=
  let vector := VECTRANS cfg.smp (cfg.globalVector irq)
  (k.increment vector).push (.pend vector .lvec)

/-- `rt_pend_linux_srq`, its first step. -/
def rtPendLinuxSrq (g : Global) (k : Cpu I) (srq : Srq) : Global × Cpu I :=
  if g.pendingSrqs srq then (g, k)
  else ({ g with pendingSrqs := update g.pendingSrqs srq true },
    k.push (.pend (VECTRANS cfg.smp srq.vector) .count))

end Steps

/-- What a CPU can do next. -/
inductive Action (I : Type) where
  | arrive (irq : I)
  | pendLinuxIrq (irq : I)
  | pendLinuxSrq (srq : Srq)
  | linuxCli
  | linuxSti
  | linuxRestoreFlags (flags : Bool)
  /-- The Linux isr or the handler on top returns. -/
  | ret (retval : Bool)
  | goOn
deriving DecidableEq

/-- Linux code is on top. -/
def Cpu.InLinux {I : Type} (k : Cpu I) : Bool :=
  match k.frames with
  | [] | .isr _ :: _ | .srq _ :: _ => true
  | _ => false

/-- The top goes on. -/
def Cpu.goOn {I : Type} (cfg : Config I) (g : Global) (k : Cpu I) : Option (Global × Cpu I) :=
  match k.frames with
  | .sti pc :: _ => some (stiStep cfg g k pc)
  | .pend vector stage :: _ => some (g, pendStep k vector stage)
  | .kbrd :: _ =>
      some ({ g with kbrdirq := false },
        k.goto (if g.kbrdirq then [.isr (cfg.globalVector cfg.kbrd), .sti .enter]
          else [.sti .enter]))
  | _ => none

/-- The top returns. -/
def Cpu.ret {I : Type} (cfg : Config I) (k : Cpu I) (retval : Bool) : Option (Cpu I) :=
  match k.frames with
  | .isr _ :: _ | .srq _ :: _ => some k.pop
  | .handler irq :: _ => some (handled cfg k irq retval)
  | _ => none

def Cpu.act {I : Type} [DecidableEq I] (cfg : Config I) (g : Global) (k : Cpu I) :
    Action I → Option (Global × Cpu I)
  | .arrive irq => some (dispatchGlobalIrq cfg g k irq)
  | .pendLinuxIrq irq => some (g, rtPendLinuxIrq cfg k irq)
  | .pendLinuxSrq srq => some (rtPendLinuxSrq cfg g k srq)
  | .linuxCli => if k.InLinux then some (g, { k with intrFlag := false }) else none
  | .linuxSti => if k.InLinux then some (g, k.push (.sti .enter)) else none
  | .linuxRestoreFlags flags =>
      if k.InLinux then
        some (g, if flags then k.push (.sti .enter) else { k with intrFlag := false })
      else none
  | .ret retval => (k.ret cfg retval).map fun k => (g, k)
  | .goOn => k.goOn cfg g

namespace Cpu

variable {I : Type} {cfg : Config I}

/-- What an action does, by cases. -/
inductive Acts (cfg : Config I) (g : Global) (k : Cpu I) : Action I → Global → Cpu I → Prop
  | handler (irq : I) (set : cfg.rtHandler irq = true) :
      Acts cfg g k (.arrive irq) g (k.push (.handler irq))
  | keyboard (unset : cfg.rtHandler cfg.kbrd = false) :
      Acts cfg g k (.arrive cfg.kbrd) { g with kbrdirq := true } (dispatched k)
  | arrived (irq : I) (unset : cfg.rtHandler irq = false) (other : irq ≠ cfg.kbrd) :
      Acts cfg g k (.arrive irq) g (dispatched (k.mark (VECTRANS cfg.smp (cfg.globalVector irq))))
  | pendLinuxIrq (irq : I) : Acts cfg g k (.pendLinuxIrq irq) g (rtPendLinuxIrq cfg k irq)
  | pending (srq : Srq) (set : g.pendingSrqs srq = true) : Acts cfg g k (.pendLinuxSrq srq) g k
  | pendLinuxSrq (srq : Srq) (unset : g.pendingSrqs srq = false) :
      Acts cfg g k (.pendLinuxSrq srq) { g with pendingSrqs := update g.pendingSrqs srq true }
        (k.push (.pend (VECTRANS cfg.smp srq.vector) .count))
  | cli (a : Action I) (which : a = .linuxCli ∨ a = .linuxRestoreFlags false) :
      Acts cfg g k a g { k with intrFlag := false }
  | call (a : Action I) (which : a = .linuxSti ∨ a = .linuxRestoreFlags true) :
      Acts cfg g k a g (k.push (.sti .enter))
  | isr (retval : Bool) (vector : Vector) (rest : List (Frame I))
      (top : k.frames = .isr vector :: rest) : Acts cfg g k (.ret retval) g k.pop
  | srq (retval : Bool) (srq : Srq) (rest : List (Frame I)) (top : k.frames = .srq srq :: rest) :
      Acts cfg g k (.ret retval) g k.pop
  | handled (retval : Bool) (irq : I) (rest : List (Frame I))
      (top : k.frames = .handler irq :: rest) :
      Acts cfg g k (.ret retval) g (handled cfg k irq retval)
  | sti (pc : Pc) (rest : List (Frame I)) (top : k.frames = .sti pc :: rest) :
      Acts cfg g k .goOn (stiStep cfg g k pc).1 (stiStep cfg g k pc).2
  | pend (vector : Vector) (stage : Marking) (rest : List (Frame I))
      (top : k.frames = .pend vector stage :: rest) :
      Acts cfg g k .goOn g (pendStep k vector stage)
  | kbrd (rest : List (Frame I)) (top : k.frames = .kbrd :: rest) :
      Acts cfg g k .goOn { g with kbrdirq := false }
        (k.goto (if g.kbrdirq then [.isr (cfg.globalVector cfg.kbrd), .sti .enter]
          else [.sti .enter]))

variable {g g' : Global} {k k' : Cpu I}

theorem goOn_acts (goes : k.goOn cfg g = some (g', k')) : Acts cfg g k .goOn g' k' := by
  rw [goOn] at goes
  match top : k.frames with
  | .sti pc :: rest =>
      rw [top] at goes
      have acts : Acts cfg g k .goOn (stiStep cfg g k pc).1 (stiStep cfg g k pc).2 :=
        .sti pc rest top
      rwa [show stiStep cfg g k pc = (g', k') from Option.some.inj goes] at acts
  | .pend vector stage :: rest =>
      rw [top] at goes
      cases goes
      exact .pend vector stage rest top
  | .kbrd :: rest =>
      rw [top] at goes
      cases goes
      exact .kbrd rest top
  | [] | .isr _ :: _ | .srq _ :: _ | .handler _ :: _ =>
      rw [top] at goes
      cases goes

theorem ret_acts {retval : Bool} (returns : k.ret cfg retval = some k') :
    Acts cfg g k (.ret retval) g k' := by
  rw [ret] at returns
  match top : k.frames with
  | .isr vector :: rest =>
      rw [top] at returns
      cases returns
      exact .isr retval vector rest top
  | .srq srq :: rest =>
      rw [top] at returns
      cases returns
      exact .srq retval srq rest top
  | .handler irq :: rest =>
      rw [top] at returns
      cases returns
      exact .handled retval irq rest top
  | [] | .sti _ :: _ | .pend _ _ :: _ | .kbrd :: _ =>
      rw [top] at returns
      cases returns

theorem arrive_acts [DecidableEq I] (irq : I) :
    Acts cfg g k (.arrive irq) (dispatchGlobalIrq cfg g k irq).1
      (dispatchGlobalIrq cfg g k irq).2 := by
  rw [dispatchGlobalIrq]
  split
  next set => exact .handler irq set
  next unset =>
    have unset : cfg.rtHandler irq = false := Bool.eq_false_of_not_eq_true unset
    split
    next same =>
      subst same
      exact .keyboard unset
    next other => exact .arrived irq unset other

theorem act_acts [DecidableEq I] {a : Action I} (acts : k.act cfg g a = some (g', k')) :
    Acts cfg g k a g' k' := by
  cases a with
  | arrive irq =>
      have arrives : Acts cfg g k (.arrive irq) _ _ := arrive_acts irq
      rwa [show dispatchGlobalIrq cfg g k irq = (g', k') from Option.some.inj acts] at arrives
  | pendLinuxIrq irq =>
      cases acts
      exact .pendLinuxIrq irq
  | pendLinuxSrq srq =>
      have e := Option.some.inj acts
      rw [rtPendLinuxSrq] at e
      split at e
      next set =>
        cases e
        exact .pending srq set
      next unset =>
        cases e
        exact .pendLinuxSrq srq (Bool.eq_false_of_not_eq_true unset)
  | linuxCli =>
      obtain ⟨-, e⟩ := Option.ite_none_right_eq_some.mp acts
      cases e
      exact .cli _ (.inl rfl)
  | linuxSti =>
      obtain ⟨-, e⟩ := Option.ite_none_right_eq_some.mp acts
      cases e
      exact .call _ (.inl rfl)
  | linuxRestoreFlags flags =>
      obtain ⟨-, e⟩ := Option.ite_none_right_eq_some.mp acts
      cases flags with
      | true =>
          cases e
          exact .call _ (.inr rfl)
      | false =>
          cases e
          exact .cli _ (.inr rfl)
  | ret retval =>
      obtain ⟨k'', returns, e⟩ := Option.map_eq_some_iff.mp acts
      cases e
      exact ret_acts returns
  | goOn => exact goOn_acts acts

end Cpu

/-- The CPUs `C`. -/
structure State (C I : Type) where
  cpu : C → Cpu I := fun _ => {}
  global : Global := {}

/-- An action of a CPU. -/
structure Event (C I : Type) where
  cpu : C
  action : Action I
deriving DecidableEq

variable {C I : Type} [DecidableEq C] {s : State C I}

/-- The other CPUs are as before. -/
theorem State.elsewhere {c d : C} {k : Cpu I} {g : Global} (other : c ≠ d) :
    ({ cpu := update s.cpu d k, global := g } : State C I).cpu c = s.cpu c :=
  update_of_ne other ..

theorem State.here (c : C) (k : Cpu I) (g : Global) :
    ({ cpu := update s.cpu c k, global := g } : State C I).cpu c = k :=
  update_self ..

variable [DecidableEq I]

def State.step (cfg : Config I) (e : Event C I) (s : State C I) : Option (State C I) := do
  let (g, k) ← (s.cpu e.cpu).act cfg s.global e.action
  return { cpu := update s.cpu e.cpu k, global := g }

theorem State.step_acts {cfg : Config I} {s' : State C I} {e : Event C I}
    (stepped : s.step cfg e = some s') :
    ∃ g k, Cpu.Acts cfg s.global (s.cpu e.cpu) e.action g k ∧
      s' = { cpu := update s.cpu e.cpu k, global := g } := by
  obtain ⟨⟨g, k⟩, acts, e'⟩ := Option.bind_eq_some_iff.mp stepped
  exact ⟨g, k, Cpu.act_acts acts, (Option.some.inj e').symm⟩

end Rtai.Irq
