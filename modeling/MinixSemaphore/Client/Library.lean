import MinixSemaphore.Server.Main

/-!
# The client library

This is semaphore.c of libsem. A function of the library fills in a message, hands it
to `_syscall`, and takes its result and the values behind its pointers from the
message that comes back. What a function leaves in the message unwritten is an
argument of the request, and so is what `_syscall` makes of the reply.
-/

namespace MinixSemaphore.Client

open MinixSemaphore.Server
open MinixSemaphore.Store

/-! ## Requests -/

/-- A request on a handle, with the given function code. -/
def handleRequest (funcion : Int) (msg : Message) (sem : Int) : Message :=
  { msg with m2i1 := funcion, m2i2 := sem }

/-- The request of `sem_close`. -/
def semCloseRequest : Message → Int → Message := handleRequest 2

/-- The request of `sem_wait`. -/
def semWaitRequest : Message → Int → Message := handleRequest 4

/-- The request of `sem_post`. -/
def semPostRequest : Message → Int → Message := handleRequest 5

/-- The request of `sem_trywait`. -/
def semTrywaitRequest : Message → Int → Message := handleRequest 8

/-- The request of `sem_destroy`. -/
def semDestroyRequest : Message → Int → Message := handleRequest 9

/-- The request of `sem_getvalue`. -/
def semGetvalueRequest (msg : Message) (sem val : Int) : Message :=
  { handleRequest 7 msg sem with m2i3 := val }

/-- The request of `sem_init`. -/
def semInitRequest (msg : Message) (sem pshared init : Int) : Message :=
  { handleRequest 3 msg sem with m2i3 := pshared, m2l1 := init }

/-- The request of `sem_unlink`. -/
def semUnlinkRequest (msg : Message) (name : CString) : Message :=
  { msg with m2i1 := 6, m2p1 := name }

/-- The request of `sem_open`. Mode and value are sent only if `O_CREAT` is the only
flag. -/
def semOpenRequest (msg : Message) (name : CString) (oflags mode value : Int) : Message :=
  let msg := { msg with m2i1 := 1, m2i3 := 2, m2l2 := oflags, m2p1 := name }
  if oflags = oCreat.toNat then { msg with m2i2 := mode, m2l1 := value, m2i3 := 4 } else msg

/-- A request that arrives while zeroes stand in for all that C leaves undetermined. -/
def call (who : Int) (msg : Message) : Event :=
  .semaph who msg default

/-! ## Results -/

/-- The end of a function on a handle: its result, and `*sem`. -/
def handleResult (syscall : Reply → Int) (sem : Int) (reply : Reply) : Int × Int :=
  if syscall reply = 0 then (reply.rta, reply.param1) else (-1, sem)

/-- The end of `sem_getvalue`, which returns nothing if the call fails: its result,
`*sem` and `*val`. -/
def getvalueResult (syscall : Reply → Int) (sem val unset : Int) (reply : Reply) :
    Int × Int × Int :=
  if syscall reply = 0 then (reply.rta, reply.param1, reply.param2) else (unset, sem, val)

end MinixSemaphore.Client
