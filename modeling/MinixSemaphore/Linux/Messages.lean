import MinixSemaphore.Linux.Server

/-!
# What the two ends make of a message

A request that the library has put together is taken apart by the server, and the answer
by the library. The length of a name travels in a `char`, which is signed, so names of
more than 127 bytes do not arrive.
-/

namespace MinixSemaphore.Linux

open MinixSemaphore.Lists
open MinixSemaphore.Server
open MinixSemaphore.Store

universe u

namespace Call

/-- What a call asks for. -/
def pedido : Call → Pedido
  | .semOpen nombre oflags mode value =>
      .semOpen nombre oflags (if oflags &&& oCreat ≠ 0 then some (mode, value) else none)
  | .semPost handle => .semPost handle
  | .semWait handle => .semWait handle
  | .semClose handle => .semClose handle
  | .semTrywait handle => .semTrywait handle
  | .semUnlink name => .semUnlink name
  | .semInit pshared value => .semInit pshared value
  | .semDestroy handle => .semDestroy handle
  | .semGetvalue handle => .semGetvalue handle

end Call

namespace Pedido

/-- The length of the name fits into a `char`. -/
def Short : Pedido → Prop
  | .semOpen nombre _ _ => nombre.length < 128
  | .semUnlink nombre => nombre.length < 128
  | _ => True

instance : DecidablePred Short := fun pedido =>
  match pedido with
  | .semOpen nombre _ _ | .semUnlink nombre => inferInstanceAs (Decidable (nombre.length < 128))
  | .semClose _ | .semWait _ | .semPost _ | .semTrywait _ | .semInit _ _ | .semGetvalue _
  | .semDestroy _ | .disconnect => inferInstanceAs (Decidable True)

end Pedido

/-! ## Requests -/

/-- The bytes of a name. -/
def nameBytes (name : CString) : List UInt8 :=
  toChar name.length :: name.chars

/-- The bytes of the arguments of `sem_open` behind the name. -/
def argBytes (oflags mode value : BitVec 32) : List UInt8 :=
  netBytes oflags ++
    if oflags &&& oCreat ≠ 0 then toChar 1 :: (netBytes mode ++ netBytes value) else [toChar 0]

/-- The bytes of a request. -/
def Call.bytes : Call → List UInt8
  | .semOpen nombre oflags mode value =>
      toChar Comando.semOpen.code :: (nameBytes nombre ++ argBytes oflags mode value)
  | .semPost handle => toChar Comando.semPost.code :: netBytes handle
  | .semWait handle => toChar Comando.semWait.code :: netBytes handle
  | .semClose handle => toChar Comando.semClose.code :: netBytes handle
  | .semTrywait handle => toChar Comando.semTrywait.code :: netBytes handle
  | .semUnlink name => toChar Comando.semUnlink.code :: nameBytes name
  | .semInit pshared value =>
      toChar Comando.semInit.code :: (netBytes pshared ++ netBytes value)
  | .semDestroy handle => toChar Comando.semDestroy.code :: netBytes handle
  | .semGetvalue handle => toChar Comando.semGetvalue.code :: netBytes handle

variable {b m : Buffer UInt8} {rest : List UInt8}

@[simp]
theorem content_putLong (n : BitVec 32) (b : Buffer UInt8) :
    (putLong n b).content = b.content ++ netBytes n :=
  b.content_put (netBytes n)

@[simp]
theorem content_putChar (c : Int) (b : Buffer UInt8) :
    (putChar c b).content = b.content ++ [toChar c] :=
  b.content_put [toChar c]

/-- A short name fits into the buffer behind the command. -/
theorem exists_putString {name : CString} (short : name.length < 128) (near : b.pos ≤ 1) :
    ∃ m, putString name name.length b = some m ∧ m.content = b.content ++ nameBytes name := by
  have inside : (putChar name.length b).pos + name.length ≤ maxMsg := by
    have pos : (putChar name.length b).pos = b.pos + 1 := rfl
    have max : maxMsg = 255 := rfl
    omega
  refine ⟨(putChar name.length b).put name.chars, ?_, ?_⟩
  · rw [putString]
    simp only [Int.toNat_natCast, map_byte_range]
    rw [if_neg (by omega)]
  · rw [Buffer.content_put, content_putChar, nameBytes, List.append_assoc]
    rfl

/-- The request of a call with a short name is sent. -/
theorem exists_message {c : Call} (short : c.pedido.Short) (b : Buffer UInt8) :
    ∃ m, c.message b = some m ∧ m.content = c.bytes := by
  cases c with
  | semOpen nombre oflags mode value =>
      have name : ofChar (toChar nombre.length) = nombre.length :=
        ofChar_toChar ⟨by omega, by exact_mod_cast short⟩
      obtain ⟨m, put, content⟩ := exists_putString (b := putChar Comando.semOpen.code b.clear)
        short (le_refl 1)
      rw [Call.message, Call.semOpenMessage, name, put, Call.bytes, argBytes]
      by_cases creat : oflags &&& oCreat ≠ 0
      · rw [if_pos creat]
        exact ⟨_, if_pos creat, by simp [content]⟩
      · rw [if_neg creat]
        exact ⟨_, if_neg creat, by simp [content]⟩
  | semUnlink name =>
      obtain ⟨m, put, content⟩ := exists_putString (b := putChar Comando.semUnlink.code b.clear)
        short (le_refl 1)
      exact ⟨m, put, by simpa [Call.bytes] using content⟩
  | semInit pshared value =>
      exact ⟨_, rfl, by simp [Call.semInitMessage, Call.bytes]⟩
  | semPost handle | semWait handle | semClose handle | semTrywait handle | semDestroy handle
  | semGetvalue handle =>
      exact ⟨_, rfl, by simp [Call.handleMessage, Call.bytes]⟩

/-! ## Requests that arrive -/

theorem getChar_code (comando : Comando) (holds : b.Holds (toChar comando.code :: rest)) :
    Comando.ofInt (getChar b).1 = some comando ∧ (getChar b).2 = b.skip 1 := by
  have code : ofChar (toChar comando.code) = comando.code := by cases comando <;> rfl
  rw [getChar_of_holds holds, code]
  exact ⟨Comando.ofInt_code comando, rfl⟩

theorem holds_tail {c : UInt8} (holds : b.Holds (c :: rest)) : (b.skip 1).Holds rest :=
  @Buffer.Holds.skip _ _ [c] _ holds

theorem getString_nameBytes {name : CString} (short : name.length < 128)
    (holds : b.Holds (nameBytes name ++ rest)) :
    getString 255 b = some (name, b.skip (1 + name.length)) ∧
      (b.skip (1 + name.length)).Holds rest := by
  refine ⟨getString_of_holds short (by omega) holds, ?_⟩
  have length : (nameBytes name).length = 1 + name.length := Nat.add_comm _ _
  exact length ▸ holds.skip

theorem readOpen_of_holds {nombre : CString} (short : nombre.length < 128)
    {oflags mode value : BitVec 32}
    (holds : b.Holds (nameBytes nombre ++ argBytes oflags mode value)) :
    readOpen b = some (.semOpen nombre oflags
      (if oflags &&& oCreat ≠ 0 then some (mode, value) else none)) := by
  obtain ⟨name, behind⟩ := getString_nameBytes short holds
  have flags := getLong_of_holds behind
  have more := behind.skip
  rw [length_netBytes] at more
  by_cases creat : oflags &&& oCreat ≠ 0
  · rw [if_pos creat] at more ⊢
    have args := holds_tail more
    have mode := getLong_of_holds args
    have value := getLong_of_holds args.skip.last
    rw [length_netBytes] at value
    have one : ofChar (toChar 1) ≠ 0 := by decide
    simp [readOpen, name, flags, getChar_of_holds more, mode, value, one]
  · rw [if_neg creat] at more ⊢
    have zero : ofChar (toChar 0) = 0 := by decide
    simp [readOpen, name, flags, getChar_of_holds more, zero]

theorem getLong_behind {c : UInt8} {n : BitVec 32} (holds : b.Holds (c :: netBytes n)) :
    (getLong (b.skip 1)).1 = n := by
  rw [getLong_of_holds (holds_tail holds).last]

theorem readPedido_of_holds {c : Call} (short : c.pedido.Short) (holds : b.Holds c.bytes) :
    readPedido b = some c.pedido := by
  rw [readPedido]
  cases c with
  | semOpen nombre oflags mode value =>
      obtain ⟨comando, behind⟩ := getChar_code .semOpen holds
      simp only [comando, behind]
      exact readOpen_of_holds short (holds_tail holds)
  | semUnlink name =>
      obtain ⟨comando, behind⟩ := getChar_code .semUnlink holds
      obtain ⟨read, -⟩ := getString_nameBytes short (holds_tail holds).last
      simp only [comando, behind, read]
      rfl
  | semInit pshared value =>
      obtain ⟨comando, behind⟩ := getChar_code .semInit holds
      have first := getLong_of_holds (holds_tail holds)
      have second := getLong_of_holds (holds_tail holds).skip.last
      simp only [comando, behind, first]
      rw [show (getLong ((b.skip 1).skip 4)).1 = value from congrArg Prod.fst second]
      rfl
  | semPost handle | semWait handle | semClose handle | semTrywait handle | semDestroy handle
  | semGetvalue handle =>
      obtain ⟨comando, behind⟩ := getChar_code _ holds
      simp only [comando, behind, getLong_behind holds]
      rfl

/-- Whatever arrives, the names that are read are short. -/
theorem length_getString {size : Nat} {name : CString} (read : getString size b = some (name, m)) :
    name.length < 128 := by
  replace read : (if (getChar b).1 < 0 then none else
      some (nextString (getChar b).2 (min size (getChar b).1.toNat),
        (getChar b).2.skip (getChar b).1.toNat)) = some (name, m) := read
  by_cases negative : (getChar b).1 < 0
  · rw [if_pos negative] at read
    contradiction
  · rw [if_neg negative] at read
    obtain ⟨rfl, -⟩ := Prod.mk.inj (Option.some.inj read)
    have char : (getChar b).1 < 128 := BitVec.toInt_lt
    have bound : (nextString (getChar b).2 (min size (getChar b).1.toNat)).length ≤
        min size (getChar b).1.toNat := length_readString_le _ _
    omega

theorem short_of_readOpen {pedido : Pedido} (read : readOpen b = some pedido) :
    pedido.Short := by
  obtain ⟨⟨nombre, behind⟩, name, read⟩ := Option.bind_eq_some_iff.mp read
  dsimp only at read
  split at read <;> cases read <;> exact length_getString name

theorem short_of_readPedido {pedido : Pedido} (read : readPedido b = some pedido) :
    pedido.Short := by
  simp only [readPedido] at read
  generalize (getChar b).2 = behind at read
  cases comando : Comando.ofInt (getChar b).1 with
  | none =>
      rw [comando] at read
      cases read
      trivial
  | some comando' =>
      rw [comando] at read
      cases comando' with
      | semOpen => exact short_of_readOpen read
      | semUnlink =>
          obtain ⟨⟨name, _⟩, named, rfl⟩ := Option.map_eq_some_iff.mp read
          exact length_getString named
      | semPost | semWait | disconnect | semClose | semTrywait | semInit | semDestroy
      | semGetvalue =>
          cases read
          trivial

/-! ## Long names -/

/-- What arrives of a call. `sem_open` keeps the length of the name in a `char`, and sends
as much of the name; `sem_unlink` sends all of it. -/
def Call.arrives : Call → Option Pedido
  | .semOpen nombre oflags mode value =>
      let nameL := ofChar (toChar nombre.length)
      if nameL < 0 then none
      else some (Call.semOpen (nombre.take nameL.toNat) oflags mode value).pedido
  | .semUnlink name => if name.length < 128 then some (.semUnlink name) else none
  | c => some c.pedido

theorem ofChar_toChar_le (n : Nat) : ofChar (toChar n) < 128 ∧ ofChar (toChar n) ≤ n := by
  refine ⟨BitVec.toInt_lt, ?_⟩
  rw [ofChar, toChar, BitVec.toInt_ofInt, Int.bmod_def]
  omega

theorem take_of_length {name : CString} {n : Nat} (length : name.length ≤ n) :
    name.take n = name :=
  CString.ext (List.take_of_length_le length)

theorem map_byte_range_take (str : CString) (n : Nat) :
    (List.range n).map str.byte = (List.range n).map (str.take n).byte := by
  apply List.map_congr_left
  intro k mem
  have less : k < n := List.mem_range.mp mem
  simp [CString.byte, CString.take, less]

/-- As much of a name is put as its length tells. -/
theorem putString_take (name : CString) (size : Int) (b : Buffer UInt8) :
    putString (name.take size.toNat) size b = putString name size b := by
  rw [putString, putString, map_byte_range_take name]

theorem length_take {name : CString} {n : Nat} (inside : n ≤ name.length) :
    (name.take n).length = n := by
  simpa [CString.length, CString.take] using inside

/-- The request of `sem_open` is that for the name which its `char` tells. -/
theorem semOpenMessage_take {nombre : CString} (positive : 0 ≤ ofChar (toChar nombre.length))
    (oflags mode value : BitVec 32) (b : Buffer UInt8) :
    Call.semOpenMessage (nombre.take (ofChar (toChar nombre.length)).toNat) oflags mode value b =
      Call.semOpenMessage nombre oflags mode value b := by
  obtain ⟨small, inside⟩ := ofChar_toChar_le nombre.length
  have length : ((nombre.take (ofChar (toChar nombre.length)).toNat).length : Int) =
      ofChar (toChar nombre.length) := by
    rw [length_take (by omega)]
    omega
  rw [Call.semOpenMessage, Call.semOpenMessage, length, ofChar_toChar ⟨by omega, small⟩,
    putString_take]

theorem request_of_short {c : Call} (short : c.pedido.Short) (b b' : Buffer UInt8) :
    ((c.message b).bind fun m => readPedido (b'.clear.receive m.content)) = some c.pedido := by
  obtain ⟨m, sent, content⟩ := exists_message short b
  rw [sent]
  exact readPedido_of_holds short (content ▸ b'.holds_receive m.content)

/-- A long name leaves the buffer of the client, or the server reads no length from it. -/
theorem request_of_long {name : CString} (long : 128 ≤ name.length) (b b' : Buffer UInt8) :
    ((Call.message b (.semUnlink name)).bind fun m =>
      readPedido (b'.clear.receive m.content)) = none := by
  have pos : (putChar name.length (putChar Comando.semUnlink.code b.clear)).pos = 2 := rfl
  rw [Call.message, Call.semUnlinkMessage, putString, pos]
  by_cases outside : (name.length : Int) < 0 ∨ maxMsg < 2 + (name.length : Int).toNat
  · rw [if_pos outside]
    rfl
  · rw [if_neg outside, Option.bind_some, Buffer.content_put, content_putChar, content_putChar]
    have arrived := b'.holds_receive ([toChar Comando.semUnlink.code] ++ [toChar name.length] ++
      (List.range (name.length : Int).toNat).map name.byte)
    obtain ⟨comando, behind⟩ := getChar_code .semUnlink arrived
    have max : maxMsg = 255 := rfl
    have read := getString_of_long 255 long (by omega) (holds_tail arrived)
    rw [readPedido]
    simp only [Buffer.content_clear, List.nil_append, comando, behind, read]
    rfl

/-- What the server reads from the request of a call is what arrives of the call, whatever
was in the two buffers before. The call arrives as it was made exactly if its name has at
most 127 bytes. -/
theorem request_round_trip (c : Call) (b b' : Buffer UInt8) :
    ((c.message b).bind fun m => readPedido (b'.clear.receive m.content)) = c.arrives ∧
      (c.arrives = some c.pedido ↔ c.pedido.Short) := by
  cases c with
  | semOpen nombre oflags mode value =>
      obtain ⟨small, inside⟩ := ofChar_toChar_le nombre.length
      by_cases negative : ofChar (toChar nombre.length) < 0
      · have long : ¬nombre.length < 128 := fun short => by
          rw [ofChar_toChar ⟨by omega, by omega⟩] at negative
          omega
        refine ⟨?_, ?_⟩
        · rw [Call.arrives, if_pos negative, Call.message, Call.semOpenMessage, putString,
            if_pos (Or.inl negative)]
          rfl
        · rw [Call.arrives, if_pos negative]
          exact iff_of_false nofun long
      · have arrives : (Call.semOpen nombre oflags mode value).arrives = some (Call.semOpen
            (nombre.take (ofChar (toChar nombre.length)).toNat) oflags mode value).pedido :=
          if_neg negative
        have cut : (nombre.take (ofChar (toChar nombre.length)).toNat).length =
            (ofChar (toChar nombre.length)).toNat := length_take (by omega)
        refine ⟨?_, ?_⟩
        · rw [arrives, Call.message, ← semOpenMessage_take (by omega)]
          exact request_of_short (c := .semOpen _ oflags mode value)
            (show CString.length _ < 128 by omega) b b'
        · rw [arrives]
          constructor
          · intro same
            have names := (Pedido.semOpen.inj (Option.some.inj same)).1
            rw [names] at cut
            show nombre.length < 128
            omega
          · intro short
            have length : ofChar (toChar nombre.length) = nombre.length :=
              ofChar_toChar ⟨by omega, by exact_mod_cast short⟩
            rw [take_of_length (by omega)]
  | semUnlink name =>
      by_cases short : name.length < 128
      · have arrives : (Call.semUnlink name).arrives = some (.semUnlink name) := if_pos short
        rw [arrives]
        exact ⟨request_of_short (c := .semUnlink name) short b b', iff_of_true rfl short⟩
      · have arrives : (Call.semUnlink name).arrives = none := if_neg short
        rw [arrives]
        exact ⟨request_of_long (by omega) b b', iff_of_false nofun short⟩
  | semPost handle | semWait handle | semClose handle | semTrywait handle | semInit pshared value
  | semDestroy handle | semGetvalue handle =>
      refine ⟨request_of_short ?_ b b', iff_of_true rfl trivial⟩
      trivial

/-! ## Answers -/

/-- What a call should come to. -/
def Outcome.result {P : Type u} (outcome : Outcome P) : Call.Result :=
  ⟨BitVec.ofInt 32 outcome.rta, BitVec.ofInt 32 (-outcome.fs.errno), outcome.extra⟩

theorem readResult_of_holds {rta errno : BitVec 32} (written : Option (BitVec 32))
    (holds : b.Holds (netBytes rta ++ netBytes errno)) :
    Call.readResult written b = ⟨rta, errno, written⟩ := by
  have first := getLong_of_holds holds
  have second := getLong_of_holds holds.skip.last
  rw [length_netBytes] at second
  simp [Call.readResult, first, second]

theorem readWritten_of_holds {written rta errno : BitVec 32}
    (holds : b.Holds (netBytes written ++ (netBytes rta ++ netBytes errno))) :
    Call.readWritten b = ⟨rta, errno, some written⟩ := by
  have first := getLong_of_holds holds
  have rest := holds.skip
  rw [length_netBytes] at rest
  simp only [Call.readWritten, first]
  exact readResult_of_holds _ rest

theorem content_answerBuffer {P : Type u} (b : Buffer UInt8) (outcome : Outcome P) :
    (Serv.answerBuffer b outcome).content = outcome.extra.elim [] netBytes ++
      (netBytes (BitVec.ofInt 32 outcome.rta) ++
        netBytes (BitVec.ofInt 32 (-outcome.fs.errno))) := by
  rw [Serv.answerBuffer]
  cases outcome.extra <;> simp

variable {P : Type u} [ListLib P Int]

/-- The library finds in an answer that the server has sent what the operation has come to:
its result, the error number, and the word behind the pointer, where there is one. -/
theorem reply_round_trip (c : Call) (σ : Fs P) (g : Garbage) (b b' : Buffer UInt8) :
    c.result (Call.answered b (Serv.answerBuffer b' (perform σ g c.pedido)).content) =
      (perform σ g c.pedido).result := by
  have arrived := b.holds_receive (Serv.answerBuffer b' (perform σ g c.pedido)).content
  rw [content_answerBuffer] at arrived
  cases c with
  | semInit pshared value | semGetvalue handle => exact readWritten_of_holds arrived
  | semOpen nombre oflags mode value | semPost handle | semWait handle | semClose handle
  | semTrywait handle | semUnlink name | semDestroy handle =>
      exact readResult_of_holds none arrived

/-! ## Waits that are woken -/

theorem ofNetBytes_shifted (x : UInt8) (n : BitVec 32) :
    ofNetBytes (x :: (netBytes n).take 3) = x.toBitVec ++ n.extractLsb' 8 24 := by
  rw [netBytes, List.take, List.take, List.take, List.take, ofNetBytes]
  apply BitVec.eq_of_getLsbD_eq
  intro k inside
  simp only [BitVec.getLsbD_append, BitVec.getLsbD_extractLsb']
  by_cases first : k < 8
  · simp [first, show k < 24 by omega]
  by_cases second : k - 8 < 8
  · simp [first, second, show k < 24 by omega, show 16 + (k - 8) = 8 + k by omega]
  by_cases third : k - 8 - 8 < 8
  · simp [first, second, third, show k < 24 by omega, show 24 + (k - 8 - 8) = 8 + k by omega]
  · simp [first, second, third, show ¬k < 24 by omega, show k - 8 - 8 - 8 = k - 24 by omega]

/-- The one byte that wakes a process is written over the command of its request, and the
library reads its result from this byte and the first three of the handle. -/
theorem result_of_wake {handle : BitVec 32} (sent : Call.message b (.semWait handle) = some m)
    (st : Int) :
    (Call.result (Call.answered m [toChar st]) (.semWait handle)).rta =
      (toChar st).toBitVec ++ handle.extractLsb' 8 24 := by
  obtain ⟨m', sent', content⟩ := exists_message (c := .semWait handle) trivial b
  obtain rfl : m = m' := Option.some.inj (sent.symm.trans sent')
  have request : m.clear.Holds (Call.semWait handle).bytes := content ▸ m.holds_content
  have arrived : (Call.answered m [toChar st]).Holds
      ((toChar st :: (netBytes handle).take 3) ++ (netBytes handle).drop 3) :=
    @Buffer.Holds.receive _ _ [toChar st] [_] _ request rfl
  rw [← ofNetBytes_shifted, ← arrived.next_append]
  rfl

/-- A woken `sem_wait` reports success exactly if its handle is one of the first 256, as
those of the server are. -/
theorem wake_succeeds_iff {handle : BitVec 32}
    (sent : Call.message b (.semWait handle) = some m) :
    (Call.result (Call.answered m [toChar 0]) (.semWait handle)).rta = 0 ↔
      handle.toNat < 256 := by
  have size : handle.toNat < 2 ^ 32 := handle.isLt
  rw [result_of_wake sent, ← BitVec.toNat_inj, BitVec.toNat_append, BitVec.extractLsb'_toNat,
    Nat.shiftRight_eq_div_pow]
  have zero : (toChar 0).toBitVec.toNat = 0 := rfl
  rw [zero]
  simp
  omega

end MinixSemaphore.Linux
