import MinixSemaphore.Linux.System

/-!
# Producers and consumers

The program prod_cons.c runs as a producer or as a consumer, any number of them at a time,
in any order. A producer waits for a place at `sem_prod`, reads a character, creates an
element and posts `sem_cons`; a consumer reads a character, waits at `sem_cons`, consumes
an element and posts `sem_prod`. At the end of its input a process unlinks both semaphores
and closes them. What is printed is left out but for the counts of elements.
-/

namespace MinixSemaphore.Linux

open MinixSemaphore.Lists
open MinixSemaphore.Server
open MinixSemaphore.Store
open MinixSemaphore.Transition

/-- The functions of prod_cons.c. -/
inductive Rol
  | productor
  | consumidor
  deriving DecidableEq

/-- Where a process is. At `enter` a consumer is about to test `c`, which it has not
initialized. -/
inductive Punto
  | openProd
  | openCons
  | enter
  | wait
  | getchar
  | post
  | postLast
  | unlinkCons
  | unlinkProd
  | closeCons
  | closeProd
  | exit
  deriving DecidableEq

/-- A process, with what its handles point to. -/
structure Proceso where
  rol : Rol
  punto : Punto
  semProd : BitVec 32
  semCons : BitVec 32
  deriving DecidableEq

/-- `"sem_prod"` -/
def nameProd : CString :=
  ⟨[115, 101, 109, 95, 112, 114, 111, 100], by simp⟩

/-- `"sem_cons"` -/
def nameCons : CString :=
  ⟨[115, 101, 109, 95, 99, 111, 110, 115], by simp⟩

namespace Proceso

/-- The handle that the process waits for. -/
def waitsFor (p : Proceso) : BitVec 32 :=
  match p.rol with
  | .productor => p.semProd
  | .consumidor => p.semCons

/-- The handle that the process posts. -/
def posts (p : Proceso) : BitVec 32 :=
  match p.rol with
  | .productor => p.semCons
  | .consumidor => p.semProd

/-- What the process calls. -/
def call (p : Proceso) : Option Call :=
  match p.punto with
  | .openProd => some (.semOpen nameProd oCreat 0 15)
  | .openCons => some (.semOpen nameCons oCreat 0 0)
  | .wait => some (.semWait p.waitsFor)
  | .post => some (.semPost p.posts)
  | .postLast => some (.semPost p.semProd)
  | .unlinkCons => some (.semUnlink nameCons)
  | .unlinkProd => some (.semUnlink nameProd)
  | .closeCons => some (.semClose p.semCons)
  | .closeProd => some (.semClose p.semProd)
  | .enter | .getchar | .exit => none

/-- The process goes on when its call has returned. Only what `sem_open` returns is looked
at: the process prints what its handles point to, which means nothing for `SEM_FAILED`. -/
def returned (p : Proceso) (rta : BitVec 32) : Option Proceso :=
  match p.punto with
  | .openProd => some { p with semProd := rta, punto := .openCons }
  | .openCons =>
      if p.semProd = -1 ∨ rta = -1 then none
      else
        match p.rol with
        | .productor => some { p with semCons := rta, punto := .wait }
        | .consumidor => some { p with semCons := rta, punto := .enter }
  | .wait =>
      match p.rol with
      | .productor => some { p with punto := .getchar }
      | .consumidor => some { p with punto := .post }
  | .post =>
      match p.rol with
      | .productor => some { p with punto := .wait }
      | .consumidor => some { p with punto := .getchar }
  | .postLast => some { p with punto := .unlinkCons }
  | .unlinkCons => some { p with punto := .unlinkProd }
  | .unlinkProd => some { p with punto := .closeCons }
  | .closeCons => some { p with punto := .closeProd }
  | .closeProd => some { p with punto := .exit }
  | .enter | .getchar | .exit => none

/-- The process goes on when it has tested `c`. -/
def tested (p : Proceso) (eof : Bool) : Option Proceso :=
  match p.punto, p.rol with
  | .enter, .consumidor => some { p with punto := if eof then .unlinkCons else .getchar }
  | .getchar, .productor => some { p with punto := if eof then .unlinkCons else .post }
  | .getchar, .consumidor => some { p with punto := if eof then .postLast else .wait }
  | _, _ => none

/-- The process creates an element when it has read a character. -/
def creates (p : Proceso) (eof : Bool) : Nat :=
  if p.rol = .productor ∧ p.punto = .getchar ∧ eof = false then 1 else 0

/-- The process ends its loop with a post when it has read the end of its input. -/
def ends (p : Proceso) (eof : Bool) : Nat :=
  if p.rol = .consumidor ∧ p.punto = .getchar ∧ eof = true then 1 else 0

/-- The process consumes an element when its call has returned. -/
def consumes (p : Proceso) : Nat :=
  if p.rol = .consumidor ∧ p.punto = .wait then 1 else 0

end Proceso

/-- The processes at their connections. The elements that were created and consumed are
counted, and the consumers that have come to the end of their input. -/
structure ProdCons (P : Type) where
  sys : System P
  procesos : ConIx → Option Proceso
  creados : Nat
  consumidos : Nat
  terminados : Nat

namespace ProdCons

variable {P : Type} [ListLib P Int]

/-- A process starts, tests the character it has read, makes its call, or ends; or the server
reads a message. -/
inductive Event
  | start (rol : Rol)
  | test (c : ConIx) (eof : Bool)
  | call (c : ConIx)
  | exit (c : ConIx)
  | serve (g : Garbage)

/-- A call of the process has returned. -/
def returned (s : ProdCons P) (r : ConIx × Call × Call.Result) : Option (ProdCons P) := do
  let p ← s.procesos r.1
  let q ← p.returned r.2.2.rta
  some { s with procesos := Function.update s.procesos r.1 (some q)
                consumidos := s.consumidos + p.consumes }

/-- A step of the processes. A process begins at the first connection that is free. -/
def step (s : ProdCons P) : Event → Option (ProdCons P)
  | .start rol => do
      let c ← firstFit fun c => !s.sys.serv.statusArray c
      let sys ← s.sys.step .connect
      some { s with sys := sys
                    procesos := Function.update s.procesos c (some ⟨rol, .openProd, 0, 0⟩) }
  | .test c eof => do
      let p ← s.procesos c
      let q ← p.tested eof
      some { s with procesos := Function.update s.procesos c (some q)
                    creados := s.creados + p.creates eof
                    terminados := s.terminados + p.ends eof }
  | .call c => do
      let p ← s.procesos c
      let call ← p.call
      if (s.sys.clientes c).call = none then
        let sys ← s.sys.step (.call c call)
        some { s with sys := sys }
      else none
  | .exit c => do
      let p ← s.procesos c
      if p.punto = .exit then
        let sys ← s.sys.step (.exit c)
        some { s with sys := sys, procesos := Function.update s.procesos c none }
      else none
  | .serve g => do
      let sys ← s.sys.step (.serve g)
      sys.returns.foldlM returned { s with sys := sys }

/-- Before the first process. -/
def boot : ProdCons (Pools Int) where
  sys := System.boot
  procesos _ := none
  creados := 0
  consumidos := 0
  terminados := 0

/-- The memory of the lists suffices for the call that is served. -/
def Roomy (s : ProdCons P) : Event → Prop
  | .serve g => ∀ c ∈ s.sys.turn, ∀ call ∈ (s.sys.clientes c).call,
      (s.sys.world.setErrno (-(g.errno : Int))).Roomy
        (.semaph c.proc call.pedido.message g.toGarbage)
  | .start _ | .test _ _ | .call _ | .exit _ => True

instance (s : ProdCons P) : ∀ e, Decidable (s.Roomy e)
  | .serve _ => inferInstanceAs (Decidable (∀ c ∈ (_ : Option ConIx), ∀ _ ∈ (_ : Option Call),
      World.Roomy _ _))
  | .start _ | .test _ _ | .call _ | .exit _ => inferInstanceAs (Decidable True)

end ProdCons

end MinixSemaphore.Linux
