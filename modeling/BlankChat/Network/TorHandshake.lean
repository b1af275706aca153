import BlankChat.Lib.Bytes

/-!
# The handshake with the local proxy — `PerformTorHandshake` of `tcp_client.cpp`

Before anything else a client speaks SOCKS5 with the Tor daemon: a greeting, the method the
daemon selects, a connect request for the onion address, and the reply. All of it goes
through arrays of fixed sizes on the stack, and what the socket has delivered behind the
reply is the first byte of the relay.

`ProxySocket` keeps account of what is written, and of how many bytes are asked for into
which array. Bytes that are asked for beyond the end of an array are a memory error in the
source; the model goes on as if the array were larger.

Main result: `tor_handshake_iff`; `domain_reply_overflows` is a reply whose address does not
fit.
-/

namespace BlankChat.Network

open Lib

/-! ## Constants — `network_types.h` -/

def socks5Version : UInt8 := 0x05

def socks5AuthMethodsCount : UInt8 := 0x01

def socks5AuthNone : UInt8 := 0x00

def maxDomainLength : ℕ := 255

def reqBufferMaxSize : ℕ := 262

def socks5CmdConnect : UInt8 := 0x01

def socks5Reserved : UInt8 := 0x00

def socks5AtypDomain : UInt8 := 0x03

def domainOffset : ℕ := 5

def portByteSize : ℕ := 2

def byteShift : UInt16 := 8

def byteMask : UInt16 := 0xFF

def respHeaderSize : ℕ := 4

def socks5RepSuccess : UInt8 := 0x00

def socks5AtypIpv4 : UInt8 := 0x01

def socks5AtypIpv6 : UInt8 := 0x04

def ipv4AddrPortSize : ℕ := 6

def ipv6AddrPortSize : ℕ := 18

def dropBufferSize : ℕ := 256

/-! ## The socket -/

/-- The arrays that are read into. -/
inductive ReadBuffer : Type where
  | greetingResponse
  | connectRespHeader
  | domainLen
  | dropBuffer
deriving DecidableEq

def ReadBuffer.size : ReadBuffer → ℕ
  | .greetingResponse => 2
  | .connectRespHeader => respHeaderSize
  | .domainLen => 1
  | .dropBuffer => dropBufferSize

structure ProxySocket : Type where
  /-- what the proxy still sends, until it closes the connection -/
  incoming : Bytes
  /-- which of the writes to come fail; the others succeed -/
  writeErrors : List Bool := []
  /-- what was given to `write` -/
  sent : List Bytes := []
  /-- how much was asked for, and where to -/
  asked : List (ReadBuffer × ℕ) := []
deriving DecidableEq

namespace ProxySocket

/-- `boost::asio::write`, with its error code. -/
def write (s : ProxySocket) (data : Bytes) : Bool × ProxySocket :=
  (s.writeErrors.headD false,
    { s with writeErrors := s.writeErrors.tail, sent := s.sent ++ [data] })

/-- `boost::asio::read` of `n` bytes; `none` if the connection ends before. -/
def read (s : ProxySocket) (buffer : ReadBuffer) (n : ℕ) : Option Bytes × ProxySocket :=
  let s := { s with asked := s.asked ++ [(buffer, n)] }
  if n ≤ s.incoming.length then
    (some (s.incoming.take n), { s with incoming := s.incoming.drop n })
  else (none, { s with incoming := [] })

end ProxySocket

/-! ## The connect request -/

/-- `buffer.at(i) = v`; `none` if `i` is outside. -/
def setAt (buffer : Bytes) (i : ℕ) (v : UInt8) : Option Bytes :=
  if i < buffer.length then some (buffer.set i v) else none

/-- `std::ranges::copy` to the position `i`; `none` if it writes outside. -/
def copyAt (buffer : Bytes) (i : ℕ) : Bytes → Option Bytes
  | [] => some buffer
  | v :: data => (setAt buffer i v).bind fun buffer => copyAt buffer (i + 1) data

/-- The fixed part of `connectReq`. -/
def writeFixed (buffer : Bytes) (length : UInt8) : Option Bytes := do
  let buffer ← setAt buffer 0 socks5Version
  let buffer ← setAt buffer 1 socks5CmdConnect
  let buffer ← setAt buffer 2 socks5Reserved
  let buffer ← setAt buffer 3 socks5AtypDomain
  setAt buffer 4 length

/-- The array `connectReq`. -/
def connectReq (onionAddress : Bytes) (destPort : UInt16) : Option Bytes := do
  let buffer := List.replicate reqBufferMaxSize 0x00
  let buffer ← writeFixed buffer (UInt8.ofNat onionAddress.length)
  let buffer ← copyAt buffer domainOffset onionAddress
  let portOffset := domainOffset + onionAddress.length
  let buffer ← setAt buffer portOffset ((destPort >>> byteShift) &&& byteMask).toUInt8
  setAt buffer (portOffset + 1) (destPort &&& byteMask).toUInt8

/-! ## The handshake -/

namespace ProxySocket

/-- The greeting and the method that is selected; `false` is the `return false`. -/
def greet (s : ProxySocket) : Bool × ProxySocket :=
  match s.write [socks5Version, socks5AuthMethodsCount, socks5AuthNone] with
  | (true, s) => (false, s)
  | (false, s) =>
      match s.read .greetingResponse 2 with
      | (none, s) => (false, s)
      | (some greetingResponse, s) =>
          (greetingResponse.getD 0 0 = socks5Version && greetingResponse.getD 1 0 = socks5AuthNone,
            s)

/-- The bytes of the reply behind its header, by the type of the address. -/
def remainingBytes (s : ProxySocket) (atyp : UInt8) : Option ℕ × ProxySocket :=
  if atyp = socks5AtypIpv4 then (some ipv4AddrPortSize, s)
  else if atyp = socks5AtypDomain then
    match s.read .domainLen 1 with
    | (none, s) => (none, s)
    | (some domainLen, s) => (some ((domainLen.getD 0 0).toNat + portByteSize), s)
  else if atyp = socks5AtypIpv6 then (some ipv6AddrPortSize, s)
  else (none, s)

/-- The address and the port in the reply, which are dropped. -/
def readAddress (s : ProxySocket) (atyp : UInt8) : Bool × ProxySocket :=
  match s.remainingBytes atyp with
  | (none, s) => (false, s)
  | (some remaining, s) =>
      let (data, s) := s.read .dropBuffer remaining
      (data.isSome, s)

/-- The reply to the request. -/
def readReply (s : ProxySocket) : Bool × ProxySocket :=
  match s.read .connectRespHeader respHeaderSize with
  | (none, s) => (false, s)
  | (some connectRespHeader, s) =>
      if connectRespHeader.getD 0 0 ≠ socks5Version then (false, s)
      else if connectRespHeader.getD 1 0 ≠ socks5RepSuccess then (false, s)
      else s.readAddress (connectRespHeader.getD 3 0)

/-- `PerformTorHandshake`; `none` if a write into `connectReq` is outside of it. -/
def performTorHandshake (s : ProxySocket) (onionAddress : Bytes) (destPort : UInt16) :
    Option Bool × ProxySocket :=
  match s.greet with
  | (false, s) => (some false, s)
  | (true, s) =>
      if maxDomainLength < onionAddress.length then (some false, s)
      else
        match connectReq onionAddress destPort with
        | none => (none, s)
        | some connectReq =>
            let request := connectReq.take (domainOffset + onionAddress.length + portByteSize)
            match s.write request with
            | (true, s) => (some false, s)
            | (false, s) =>
                let (ok, s) := s.readReply
                (some ok, s)

end ProxySocket

/-! ## What the other side reads -/

/-- A connect request, as a SOCKS5 proxy reads it: the name and the port. -/
def readConnectRequest : Bytes → Option (Bytes × UInt16)
  | 0x05 :: 0x01 :: 0x00 :: 0x03 :: len :: rest =>
      if rest.length = len.toNat + 2 then
        some (rest.take len.toNat, UInt16.ofNat
          (256 * (rest.getD len.toNat 0).toNat + (rest.getD (len.toNat + 1) 0).toNat))
      else none
  | _ => none

/-- A complete reply that reports success, for each type of address. -/
inductive SuccessReply : Bytes → Prop
  | ipv4 (rsv : UInt8) {address port : Bytes} (h : address.length = 4) (h' : port.length = 2) :
      SuccessReply ([0x05, 0x00, rsv, 0x01] ++ address ++ port)
  | domain (rsv : UInt8) {name port : Bytes} (h : name.length ≤ 255) (h' : port.length = 2) :
      SuccessReply ([0x05, 0x00, rsv, 0x03, UInt8.ofNat name.length] ++ name ++ port)
  | ipv6 (rsv : UInt8) {address port : Bytes} (h : address.length = 16) (h' : port.length = 2) :
      SuccessReply ([0x05, 0x00, rsv, 0x04] ++ address ++ port)

/-! ## The request -/

theorem setAt_append (pre post : Bytes) (x v : UInt8) :
    setAt (pre ++ x :: post) pre.length v = some (pre ++ v :: post) := by
  rw [setAt, if_pos (by simp)]
  simp

theorem copyAt_append (pre : Bytes) {old : Bytes} (post data : Bytes)
    (h : old.length = data.length) :
    copyAt (pre ++ (old ++ post)) pre.length data = some (pre ++ (data ++ post)) := by
  induction data generalizing pre old with
  | nil =>
      rw [List.length_eq_zero_iff.mp h]
      rfl
  | cons v data ih =>
      obtain ⟨x, old, rfl⟩ := List.exists_cons_of_length_eq_add_one h
      have hrest := @ih (pre ++ [v]) old (Nat.succ.inj h)
      rw [List.length_append] at hrest
      rw [copyAt, List.cons_append, setAt_append]
      show copyAt (pre ++ v :: (old ++ post)) (pre.length + 1) data = _
      simpa using hrest

/-- The request for an address that is not too long. -/
def requestBytes (onionAddress : Bytes) (destPort : UInt16) : Bytes :=
  [0x05, 0x01, 0x00, 0x03, UInt8.ofNat onionAddress.length] ++ (onionAddress ++
    [((destPort >>> byteShift) &&& byteMask).toUInt8, (destPort &&& byteMask).toUInt8])

theorem writeFixed_append (tail : Bytes) (length : UInt8) :
    writeFixed ([0x00, 0x00, 0x00, 0x00, 0x00] ++ tail) length =
      some ([0x05, 0x01, 0x00, 0x03, length] ++ tail) := by
  simp [writeFixed, setAt, socks5Version, socks5CmdConnect, socks5Reserved, socks5AtypDomain]

/-- **Every write is inside the array**, if the address is not too long. -/
theorem connectReq_eq {onionAddress : Bytes} (h : onionAddress.length ≤ maxDomainLength)
    (destPort : UInt16) :
    connectReq onionAddress destPort =
      some (requestBytes onionAddress destPort ++
        List.replicate (maxDomainLength - onionAddress.length) 0x00) := by
  -- the array: five bytes, the address, the port and the rest
  have hbuffer : List.replicate reqBufferMaxSize (0x00 : UInt8) =
      [0x00, 0x00, 0x00, 0x00, 0x00] ++ (List.replicate onionAddress.length 0x00 ++ ([0x00, 0x00] ++
        List.replicate (maxDomainLength - onionAddress.length) 0x00)) := by
    show _ = List.replicate 5 0x00 ++ (_ ++ (List.replicate 2 0x00 ++ _))
    simp only [List.replicate_append_replicate]
    congr 1
    unfold reqBufferMaxSize maxDomainLength at *
    omega
  have hlength := List.length_replicate (n := onionAddress.length) (a := (0x00 : UInt8))
  unfold connectReq requestBytes
  rw [hbuffer]
  generalize List.replicate (maxDomainLength - onionAddress.length) (0x00 : UInt8) = rest
  generalize List.replicate onionAddress.length (0x00 : UInt8) = old at hlength ⊢
  generalize UInt8.ofNat onionAddress.length = len
  generalize ((destPort >>> byteShift) &&& byteMask).toUInt8 = high
  generalize (destPort &&& byteMask).toUInt8 = low
  have hname : copyAt ([0x05, 0x01, 0x00, 0x03, len] ++ (old ++ ([0x00, 0x00] ++ rest)))
      domainOffset onionAddress =
      some ([0x05, 0x01, 0x00, 0x03, len] ++ (onionAddress ++ ([0x00, 0x00] ++ rest))) :=
    copyAt_append _ _ _ hlength
  have hhigh : setAt ([0x05, 0x01, 0x00, 0x03, len] ++ (onionAddress ++ ([0x00, 0x00] ++ rest)))
      (domainOffset + onionAddress.length) high =
      some ([0x05, 0x01, 0x00, 0x03, len] ++ (onionAddress ++ ([high, 0x00] ++ rest))) := by
    have hset := setAt_append ([0x05, 0x01, 0x00, 0x03, len] ++ onionAddress) (0x00 :: rest) 0x00 high
    rwa [List.length_append, List.append_assoc, List.append_assoc] at hset
  have hlow : setAt ([0x05, 0x01, 0x00, 0x03, len] ++ (onionAddress ++ ([high, 0x00] ++ rest)))
      (domainOffset + onionAddress.length + 1) low =
      some ([0x05, 0x01, 0x00, 0x03, len] ++ (onionAddress ++ ([high, low] ++ rest))) := by
    have hset := setAt_append ([0x05, 0x01, 0x00, 0x03, len] ++ (onionAddress ++ [high])) rest 0x00 low
    rwa [List.length_append, List.length_append, List.append_assoc, List.append_assoc,
      List.append_assoc, List.append_assoc] at hset
  simp only [Option.bind_eq_bind, writeFixed_append, Option.bind_some, hname, hhigh, hlow,
    List.append_assoc]

theorem length_requestBytes (onionAddress : Bytes) (destPort : UInt16) :
    (requestBytes onionAddress destPort).length =
      domainOffset + onionAddress.length + portByteSize := by
  simp only [requestBytes, List.length_append, List.length_cons, List.length_nil, domainOffset,
    portByteSize]
  omega

theorem connectReq_take {onionAddress : Bytes} (h : onionAddress.length ≤ maxDomainLength)
    (destPort : UInt16) :
    ∃ buffer, connectReq onionAddress destPort = some buffer ∧
      buffer.length = reqBufferMaxSize ∧
      requestBytes onionAddress destPort =
        buffer.take (domainOffset + onionAddress.length + portByteSize) := by
  have hlength := length_requestBytes onionAddress destPort
  refine ⟨_, connectReq_eq h destPort, ?_, ?_⟩
  · rw [List.length_append, hlength, List.length_replicate]
    unfold maxDomainLength domainOffset portByteSize reqBufferMaxSize at *
    omega
  · rw [← hlength, List.take_left]

theorem portBytes_toNat (destPort : UInt16) :
    UInt16.ofNat (256 * ((destPort >>> byteShift) &&& byteMask).toUInt8.toNat +
      (destPort &&& byteMask).toUInt8.toNat) = destPort := by
  have hmask : ∀ n : ℕ, n &&& 255 = n % 256 := fun n => Nat.and_two_pow_sub_one_eq_mod n 8
  have hlt := destPort.toNat_lt
  apply UInt16.toNat_inj.mp
  simp [byteShift, byteMask, hmask, Nat.shiftRight_eq_div_pow]
  omega

/-- **The proxy reads the address and the port that were meant.** -/
theorem readConnectRequest_requestBytes {onionAddress : Bytes}
    (h : onionAddress.length ≤ maxDomainLength) (destPort : UInt16) :
    readConnectRequest (requestBytes onionAddress destPort) = some (onionAddress, destPort) := by
  have hlen : (UInt8.ofNat onionAddress.length).toNat = onionAddress.length := by
    apply UInt8.toNat_ofNat_of_lt'
    exact Nat.lt_succ_of_le h
  unfold requestBytes
  generalize hhigh : ((destPort >>> byteShift) &&& byteMask).toUInt8 = high
  generalize hlow : (destPort &&& byteMask).toUInt8 = low
  have hport := portBytes_toNat destPort
  rw [hhigh, hlow] at hport
  show readConnectRequest (0x05 :: 0x01 :: 0x00 :: 0x03 :: UInt8.ofNat onionAddress.length ::
    (onionAddress ++ [high, low])) = _
  unfold readConnectRequest
  simp [hlen, hport]

/-! ## Reading -/

/-- No more is asked for than fits. -/
def Fits (asked : List (ReadBuffer × ℕ)) : Prop := ∀ a ∈ asked, a.2 ≤ a.1.size

instance (asked : List (ReadBuffer × ℕ)) : Decidable (Fits asked) :=
  inferInstanceAs (Decidable (∀ a ∈ asked, _))

theorem fits_cons {a : ReadBuffer × ℕ} {asked : List (ReadBuffer × ℕ)} :
    Fits (a :: asked) ↔ a.2 ≤ a.1.size ∧ Fits asked := List.forall_mem_cons

namespace ProxySocket

/-- A read takes its bytes off the stream, or the stream was too short. -/
theorem read_cases (s : ProxySocket) (buffer : ReadBuffer) (n : ℕ) :
    (∃ data rest, s.incoming = data ++ rest ∧ data.length = n ∧
      s.read buffer n =
        (some data, { s with incoming := rest, asked := s.asked ++ [(buffer, n)] })) ∨
    (s.incoming.length < n ∧
      s.read buffer n = (none, { s with incoming := [], asked := s.asked ++ [(buffer, n)] })) := by
  by_cases h : n ≤ s.incoming.length
  · refine .inl ⟨s.incoming.take n, s.incoming.drop n, (List.take_append_drop n _).symm, ?_, ?_⟩
    · exact List.length_take_of_le h
    · rw [read, if_pos h]
  · refine .inr ⟨Nat.lt_of_not_le h, ?_⟩
    rw [read, if_neg h]

theorem read_address (s : ProxySocket) (k : ℕ) {data : Option Bytes} {s' : ProxySocket}
    (hread : s.read .dropBuffer (k + portByteSize) = (data, s')) :
    s'.sent = s.sent ∧ s'.asked = s.asked ++ [(.dropBuffer, k + portByteSize)] ∧
      (data.isSome = true → ∃ address port : Bytes, address.length = k ∧ port.length = 2 ∧
        s.incoming = address ++ port ++ s'.incoming) := by
  rcases s.read_cases .dropBuffer (k + portByteSize) with ⟨data, rest, hin, hlen, hread'⟩ |
    ⟨-, hread'⟩
  · obtain ⟨rfl, rfl⟩ := Prod.mk.inj (hread.symm.trans hread')
    refine ⟨rfl, rfl, fun _ => ⟨data.take k, data.drop k, ?_, ?_, ?_⟩⟩
    · exact List.length_take_of_le (hlen ▸ Nat.le_add_right k _)
    · rw [List.length_drop, hlen]
      exact Nat.add_sub_cancel_left k 2
    · rw [List.take_append_drop]
      exact hin
  · obtain ⟨rfl, rfl⟩ := Prod.mk.inj (hread.symm.trans hread')
    exact ⟨rfl, rfl, fun h => (by cases h)⟩

/-- A name of 255 bytes comes. -/
def LongName (atyp : UInt8) (stream : Bytes) : Prop :=
  atyp = socks5AtypDomain ∧ ∃ rest, stream = 0xFF :: rest

/-- What `readAddress` did: what it asked for, and what it took off the stream. -/
structure Dropped (s : ProxySocket) (atyp : UInt8) (r : Bool × ProxySocket) : Prop where
  sent : r.2.sent = s.sent
  asked : ∃ asked, r.2.asked = s.asked ++ asked ∧ (Fits asked ↔ ¬ LongName atyp s.incoming)
  address : r.1 = true → ∃ body, s.incoming = body ++ r.2.incoming ∧
    ∀ rsv, SuccessReply ([0x05, 0x00, rsv, atyp] ++ body)

theorem readAddress_fixed (s : ProxySocket) {atyp : UInt8} {k : ℕ}
    (hremaining : s.remainingBytes atyp = (some (k + portByteSize), s))
    (hfits : Fits [(.dropBuffer, k + portByteSize)]) (hatyp : atyp ≠ socks5AtypDomain)
    (hreply : ∀ rsv {address port : Bytes}, address.length = k → port.length = 2 →
      SuccessReply ([0x05, 0x00, rsv, atyp] ++ address ++ port)) :
    Dropped s atyp (s.readAddress atyp) := by
  unfold readAddress
  rw [hremaining]
  dsimp only
  cases hread : s.read .dropBuffer (k + portByteSize) with
  | mk data s' =>
      obtain ⟨hsent, hasked, haddress⟩ := s.read_address k hread
      refine ⟨hsent, ⟨_, hasked, iff_of_true hfits fun hlong => hatyp hlong.1⟩, ?_⟩
      intro hok
      obtain ⟨address, port, hlen, hport, hin⟩ := haddress hok
      refine ⟨address ++ port, hin, fun rsv => ?_⟩
      rw [← List.append_assoc]
      exact hreply rsv hlen hport

/-- The length byte decides how much is asked for: two bytes more. -/
theorem fits_domain (len : UInt8) :
    Fits [(.domainLen, 1), (.dropBuffer, len.toNat + portByteSize)] ↔ len ≠ 0xFF := by
  have hlt := len.toNat_lt
  have hmax : len = 0xFF ↔ len.toNat = 255 := UInt8.toNat_inj.symm
  rw [Ne, hmax]
  simp only [Fits, List.forall_mem_cons, ReadBuffer.size, portByteSize, dropBufferSize]
  simp
  omega

theorem readAddress_domain (s : ProxySocket) : Dropped s 0x03 (s.readAddress 0x03) := by
  rcases s.read_cases .domainLen 1 with ⟨data, rest, hin, hlen, hread⟩ | ⟨hshort, hread⟩
  · obtain ⟨len, rfl⟩ := List.length_eq_one_iff.mp hlen
    have hremaining : s.remainingBytes 0x03 = (some (len.toNat + portByteSize),
        { s with incoming := rest, asked := s.asked ++ [(.domainLen, 1)] }) := by
      show (match s.read .domainLen 1 with
        | (none, s) => (none, s)
        | (some domainLen, s) => (some ((domainLen.getD 0 0).toNat + portByteSize), s)) = _
      rw [hread]
      rfl
    unfold readAddress
    rw [hremaining]
    dsimp only
    generalize hs : ProxySocket.mk rest _ _ _ = s₁
    cases hdrop : s₁.read .dropBuffer (len.toNat + portByteSize) with
    | mk name s' =>
        obtain ⟨hsent, hasked, haddress⟩ := s₁.read_address _ hdrop
        rw [← hs] at hsent hasked haddress
        refine ⟨hsent, ⟨[(.domainLen, 1), (.dropBuffer, len.toNat + portByteSize)], ?_, ?_⟩, ?_⟩
        · rw [hasked, List.append_assoc]
          rfl
        · rw [fits_domain, hin]
          refine not_congr ⟨?_, ?_⟩
          · rintro rfl
            exact ⟨rfl, rest, rfl⟩
          · rintro ⟨-, rest', heq⟩
            exact (List.cons.inj heq).1
        · intro hok
          obtain ⟨address, port, hname, hport, hrest⟩ := haddress hok
          refine ⟨len :: (address ++ port), ?_, fun rsv => ?_⟩
          · rw [hin]
            exact congrArg (len :: ·) hrest
          · have hlen : UInt8.ofNat address.length = len := by rw [hname, UInt8.ofNat_toNat]
            have hreply : SuccessReply ([0x05, 0x00, rsv, 0x03, UInt8.ofNat address.length] ++
                address ++ port) :=
              .domain rsv (hname ▸ Nat.le_of_lt_succ len.toNat_lt) hport
            rw [hlen] at hreply
            exact hreply
  · have hnil : s.incoming = [] := List.length_eq_zero_iff.mp (Nat.lt_one_iff.mp hshort)
    have hremaining : s.remainingBytes 0x03 =
        (none, { s with incoming := [], asked := s.asked ++ [(.domainLen, 1)] }) := by
      show (match s.read .domainLen 1 with
        | (none, s) => (none, s)
        | (some domainLen, s) => (some ((domainLen.getD 0 0).toNat + portByteSize), s)) = _
      rw [hread]
    unfold readAddress
    rw [hremaining]
    refine ⟨rfl, ⟨_, rfl, iff_of_true (by decide) ?_⟩, fun h => (by cases h)⟩
    rintro ⟨-, rest, heq⟩
    rw [hnil] at heq
    cases heq

theorem readAddress_dropped (s : ProxySocket) (atyp : UInt8) :
    Dropped s atyp (s.readAddress atyp) := by
  by_cases hipv4 : atyp = socks5AtypIpv4
  · rw [hipv4]
    exact readAddress_fixed s (k := 4) rfl (by decide) (by decide) SuccessReply.ipv4
  · by_cases hdomain : atyp = socks5AtypDomain
    · rw [hdomain]
      exact readAddress_domain s
    · by_cases hipv6 : atyp = socks5AtypIpv6
      · rw [hipv6]
        exact readAddress_fixed s (k := 16) rfl (by decide) (by decide) SuccessReply.ipv6
      · unfold readAddress remainingBytes
        rw [if_neg hipv4, if_neg hdomain, if_neg hipv6]
        refine ⟨rfl, ⟨[], (List.append_nil _).symm, iff_of_true (by decide) ?_⟩, fun h => ?_⟩
        · exact fun hlong => hdomain hlong.1
        · cases h

/-- The stream is a reply with a name of 255 bytes. -/
def LongReply (stream : Bytes) : Prop :=
  ∃ rsv rest, stream = [0x05, 0x00, rsv, 0x03, 0xFF] ++ rest

theorem longReply_cons {a b c d : UInt8} {rest : Bytes} :
    LongReply ([a, b, c, d] ++ rest) ↔ a = socks5Version ∧ b = socks5RepSuccess ∧ LongName d rest := by
  constructor
  · rintro ⟨rsv, rest', h⟩
    simp only [List.cons_append, List.nil_append, List.cons.injEq] at h
    obtain ⟨rfl, rfl, -, rfl, rfl⟩ := h
    exact ⟨rfl, rfl, rfl, rest', rfl⟩
  · rintro ⟨rfl, rfl, rfl, rest', rfl⟩
    exact ⟨c, rest', rfl⟩

/-- What `readReply` did. -/
structure Replied (s : ProxySocket) (r : Bool × ProxySocket) : Prop where
  sent : r.2.sent = s.sent
  asked : ∃ asked, r.2.asked = s.asked ++ asked ∧ (Fits asked ↔ ¬ LongReply s.incoming)
  reply : r.1 = true → ∃ reply, SuccessReply reply ∧ s.incoming = reply ++ r.2.incoming

/-- **The reply.** What is read fits, unless the reply is a long one; and if it is a success
the complete reply was taken off the stream, and nothing more. -/
theorem readReply_replied (s : ProxySocket) : Replied s s.readReply := by
  have hheader : Fits [(.connectRespHeader, respHeaderSize)] := by decide
  unfold readReply
  rcases s.read_cases .connectRespHeader respHeaderSize with ⟨header, rest, hin, hlen, hread⟩ |
    ⟨hshort, hread⟩
  · obtain ⟨a, b, c, d, rfl⟩ : ∃ a b c d, header = [a, b, c, d] := by
      rcases header with _ | ⟨a, _ | ⟨b, _ | ⟨c, _ | ⟨d, _ | ⟨_, _⟩⟩⟩⟩⟩ <;>
        simp [respHeaderSize] at hlen
      exact ⟨a, b, c, d, rfl⟩
    have hlong : LongReply s.incoming ↔
        a = socks5Version ∧ b = socks5RepSuccess ∧ LongName d rest := by
      rw [hin]
      exact longReply_cons
    rw [hread]
    dsimp only [List.getD_cons_zero, List.getD_cons_succ]
    split
    · next hversion =>
        refine ⟨rfl, ⟨_, rfl, iff_of_true hheader ?_⟩, fun h => (by cases h)⟩
        exact fun h => hversion (hlong.mp h).1
    · next hversion =>
        split
        · next hsuccess =>
            refine ⟨rfl, ⟨_, rfl, iff_of_true hheader ?_⟩, fun h => (by cases h)⟩
            exact fun h => hsuccess (hlong.mp h).2.1
        · next hsuccess =>
            have hversion : a = socks5Version := not_not.mp hversion
            have hsuccess : b = socks5RepSuccess := not_not.mp hsuccess
            generalize hs : ProxySocket.mk rest _ _ _ = s₁
            obtain ⟨hsent, ⟨asked, hasked, hfits⟩, haddress⟩ := readAddress_dropped s₁ d
            rw [← hs] at hsent hasked hfits haddress
            rw [← hs]
            refine ⟨hsent, ⟨(.connectRespHeader, respHeaderSize) :: asked, ?_, ?_⟩, ?_⟩
            · exact hasked.trans (List.append_assoc _ _ _)
            · rw [hlong, fits_cons, hfits]
              simp [hversion, hsuccess, ReadBuffer.size]
            · intro hok
              obtain ⟨body, hbody, hreply⟩ := haddress hok
              refine ⟨_, hreply c, ?_⟩
              rw [hin, hversion, hsuccess, List.append_assoc]
              exact congrArg ([0x05, 0x00, c, d] ++ ·) hbody
  · rw [hread]
    refine ⟨rfl, ⟨_, rfl, iff_of_true hheader ?_⟩, fun h => (by cases h)⟩
    rintro ⟨rsv, rest, h⟩
    rw [h] at hshort
    simp only [respHeaderSize, List.length_append, List.length_cons] at hshort
    omega

/-- The bytes of the greeting. -/
def greetingBytes : Bytes := [0x05, 0x01, 0x00]

/-- The greeting is written, and the proxy selects the method. -/
def Greeted (s : ProxySocket) (rest : Bytes) : Prop :=
  s.writeErrors.headD false = false ∧ s.incoming = [0x05, 0x00] ++ rest

theorem greet_cases (s : ProxySocket) :
    (∃ rest, s.Greeted rest ∧ s.greet = (true, { s with
      incoming := rest
      writeErrors := s.writeErrors.tail
      sent := s.sent ++ [greetingBytes]
      asked := s.asked ++ [(.greetingResponse, 2)] })) ∨
    ((∀ rest, ¬ s.Greeted rest) ∧ ∃ s' asked, s.greet = (false, s') ∧
      s'.sent = s.sent ++ [greetingBytes] ∧ s'.asked = s.asked ++ asked ∧ Fits asked) := by
  unfold greet write
  cases herror : s.writeErrors.headD false with
  | true =>
      refine .inr ⟨fun rest h => ?_, _, [], rfl, rfl, (List.append_nil _).symm, by decide⟩
      exact absurd (herror.symm.trans h.1) (by decide)
  | false =>
      dsimp only
      generalize hs : ProxySocket.mk _ _ _ _ = s₁
      have hincoming : s₁.incoming = s.incoming := hs ▸ rfl
      rcases s₁.read_cases .greetingResponse 2 with ⟨data, rest, hin, hlen, hread⟩ |
        ⟨hshort, hread⟩
      · obtain ⟨a, b, rfl⟩ := List.length_eq_two.mp hlen
        rw [hread]
        by_cases hmethod : a = socks5Version ∧ b = socks5AuthNone
        · obtain ⟨rfl, rfl⟩ := hmethod
          refine .inl ⟨rest, ⟨herror, hincoming.symm.trans hin⟩, ?_⟩
          rw [← hs]
          rfl
        · have hrejected : (decide (a = socks5Version) && decide (b = socks5AuthNone)) = false := by
            rw [← Bool.decide_and]
            exact decide_eq_false hmethod
          refine .inr ⟨?_, { s₁ with
            incoming := rest
            asked := s₁.asked ++ [(.greetingResponse, 2)] }, [(.greetingResponse, 2)], ?_, ?_, ?_,
            by decide⟩
          · rintro rest' ⟨-, hrest'⟩
            have heq := hin.symm.trans (hincoming.trans hrest')
            simp only [List.cons_append, List.nil_append, List.cons.injEq] at heq
            exact hmethod ⟨heq.1, heq.2.1⟩
          · exact Prod.ext hrejected rfl
          · rw [← hs]
            rfl
          · rw [← hs]
      · rw [hread]
        refine .inr ⟨?_, _, [(.greetingResponse, 2)], rfl, ?_, ?_, by decide⟩
        · rintro rest ⟨-, hrest⟩
          rw [hincoming, hrest] at hshort
          simp only [List.length_append, List.length_cons] at hshort
          omega
        · rw [← hs]
          rfl
        · rw [← hs]

theorem performTorHandshake_cases (s : ProxySocket) (onionAddress : Bytes) (destPort : UInt16) :
    (∃ s' asked, s.performTorHandshake onionAddress destPort = (some false, s') ∧
      s'.sent = s.sent ++ [greetingBytes] ∧ s'.asked = s.asked ++ asked ∧ Fits asked ∧
      ((∀ rest, ¬ s.Greeted rest) ∨ maxDomainLength < onionAddress.length)) ∨
    (∃ rest s₁ ok s', s.Greeted rest ∧ onionAddress.length ≤ maxDomainLength ∧
      s.performTorHandshake onionAddress destPort = (some ok, s') ∧
      s₁.incoming = rest ∧
      s₁.sent = s.sent ++ [greetingBytes, requestBytes onionAddress destPort] ∧
      s₁.asked = s.asked ++ [(.greetingResponse, 2)] ∧
      (s.writeErrors.tail.headD false = true ∧ ok = false ∧ s' = s₁ ∨
        s.writeErrors.tail.headD false = false ∧ Replied s₁ (ok, s'))) := by
  unfold performTorHandshake
  rcases s.greet_cases with ⟨rest, hgreeted, hgreet⟩ | ⟨hnot, s', asked, hgreet, hsent, hasked, hfits⟩
  · rw [hgreet]
    dsimp only
    split
    · next hlong =>
        exact .inl ⟨_, _, rfl, rfl, rfl, by decide, .inr hlong⟩
    · next hlong =>
        have hle := Nat.le_of_not_lt hlong
        obtain ⟨buffer, hbuffer, -, htake⟩ := connectReq_take hle destPort
        rw [hbuffer]
        dsimp only
        rw [← htake]
        unfold write
        dsimp only
        generalize hs : ProxySocket.mk _ _ _ _ = s₁
        have hsent : s₁.sent = s.sent ++ [greetingBytes, requestBytes onionAddress destPort] := by
          rw [← hs]
          exact List.append_assoc _ _ _
        cases herror : s.writeErrors.tail.headD false with
        | true =>
            refine .inr ⟨rest, s₁, false, s₁, hgreeted, hle, rfl, hs ▸ rfl, hsent, hs ▸ rfl, ?_⟩
            exact .inl ⟨rfl, rfl, rfl⟩
        | false =>
            refine .inr ⟨rest, s₁, s₁.readReply.1, s₁.readReply.2, hgreeted, hle, rfl, hs ▸ rfl,
              hsent, hs ▸ rfl, ?_⟩
            exact .inr ⟨rfl, s₁.readReply_replied⟩
  · rw [hgreet]
    exact .inl ⟨s', asked, rfl, hsent, hasked, hfits, .inl hnot⟩

end ProxySocket

/-- The handshake comes to a reply with a name of 255 bytes: both writes succeed, the address
is not too long, and the proxy sends the method and such a reply. -/
def LongDomainReply (stream : Bytes) (writeErrors : List Bool) (onionAddress : Bytes) : Prop :=
  writeErrors.headD false = false ∧ writeErrors.tail.headD false = false ∧
    onionAddress.length ≤ maxDomainLength ∧
    ∃ rsv rest, stream = [0x05, 0x00, 0x05, 0x00, rsv, 0x03, 0xFF] ++ rest

/-- Once the proxy has selected the method, it is the reply that decides. -/
theorem longDomainReply_iff {stream rest : Bytes} {writeErrors : List Bool} {onionAddress : Bytes}
    (hgreeted : ProxySocket.Greeted { incoming := stream, writeErrors := writeErrors } rest)
    (hle : onionAddress.length ≤ maxDomainLength) :
    LongDomainReply stream writeErrors onionAddress ↔
      writeErrors.tail.headD false = false ∧ ProxySocket.LongReply rest := by
  obtain ⟨hwrite, hstream⟩ := hgreeted
  have hstream : stream = [0x05, 0x00] ++ rest := hstream
  constructor
  · rintro ⟨-, herror, -, rsv, rest', hrest'⟩
    refine ⟨herror, rsv, rest', ?_⟩
    rw [hstream] at hrest'
    exact List.append_cancel_left hrest'
  · rintro ⟨herror, rsv, rest', rfl⟩
    exact ⟨hwrite, herror, hle, rsv, rest', hstream⟩

/-- **The handshake stays in step with the stream, and in its buffers except for one reply.**
For every stream of the proxy, every address and port: no write into the request is outside;
an address that is too long is not requested, and from the request for any other address the
proxy reads this address and this port; if the handshake succeeds it has taken the method and
one complete reply off the stream. More is asked for than a buffer holds exactly if the
reply has a name of 255 bytes: with the port these are 257. -/
theorem tor_handshake_iff (stream : Bytes) (writeErrors : List Bool) (onionAddress : Bytes)
    (destPort : UInt16) (r : Option Bool) (s' : ProxySocket)
    (hrun : ProxySocket.performTorHandshake
      { incoming := stream, writeErrors := writeErrors } onionAddress destPort = (r, s')) :
    r ≠ none ∧
    (maxDomainLength < onionAddress.length → s'.sent = [ProxySocket.greetingBytes]) ∧
    (onionAddress.length ≤ maxDomainLength →
      ∃ buffer request, connectReq onionAddress destPort = some buffer ∧
        buffer.length = reqBufferMaxSize ∧
        request = buffer.take (domainOffset + onionAddress.length + portByteSize) ∧
        request.length = domainOffset + onionAddress.length + portByteSize ∧
        readConnectRequest request = some (onionAddress, destPort) ∧
        (s'.sent = [ProxySocket.greetingBytes] ∨
          s'.sent = [ProxySocket.greetingBytes, request]) ∧
        (writeErrors.headD false = false → (∃ rest, stream = [0x05, 0x00] ++ rest) →
          s'.sent = [ProxySocket.greetingBytes, request])) ∧
    (r = some true → ∃ reply, SuccessReply reply ∧
      stream = [0x05, 0x00] ++ reply ++ s'.incoming) ∧
    (Fits s'.asked ↔ ¬ LongDomainReply stream writeErrors onionAddress) := by
  rcases ProxySocket.performTorHandshake_cases
      { incoming := stream, writeErrors := writeErrors } onionAddress destPort with
    ⟨s₂, asked, hcase, hsent, hasked, hfits, hwhy⟩ |
    ⟨rest, s₁, ok, s₂, hgreeted, hle, hcase, hin, hsent, hasked, hend⟩
  · obtain ⟨rfl, rfl⟩ := Prod.mk.inj (hrun.symm.trans hcase)
    refine ⟨fun h => (by cases h), fun _ => hsent, ?_, fun h => (by cases h), ?_⟩
    · intro hle
      obtain ⟨buffer, hbuffer, hsize, htake⟩ := connectReq_take hle destPort
      refine ⟨buffer, _, hbuffer, hsize, htake, length_requestBytes onionAddress destPort,
        readConnectRequest_requestBytes hle destPort, .inl hsent, ?_⟩
      rintro herror ⟨rest, hrest⟩
      rcases hwhy with hnot | hlong
      · exact absurd ⟨herror, hrest⟩ (hnot rest)
      · exact absurd hle (Nat.not_le.mpr hlong)
    · have hall : Fits s'.asked := by
        rw [hasked]
        exact hfits
      refine iff_of_true hall ?_
      rintro ⟨herror, -, hle, rsv, rest, hrest⟩
      rcases hwhy with hnot | hlong
      · exact hnot _ ⟨herror, hrest⟩
      · exact absurd hle (Nat.not_le.mpr hlong)
  · obtain ⟨rfl, rfl⟩ := Prod.mk.inj (hrun.symm.trans hcase)
    have hsent' : s'.sent = [ProxySocket.greetingBytes, requestBytes onionAddress destPort] := by
      rcases hend with ⟨-, -, rfl⟩ | ⟨-, hreplied⟩
      · exact hsent
      · exact hreplied.sent.trans hsent
    refine ⟨fun h => (by cases h), fun h => absurd hle (Nat.not_le.mpr h), ?_, ?_, ?_⟩
    · intro _
      obtain ⟨buffer, hbuffer, hsize, htake⟩ := connectReq_take hle destPort
      exact ⟨buffer, _, hbuffer, hsize, htake, length_requestBytes onionAddress destPort,
        readConnectRequest_requestBytes hle destPort, .inr hsent', fun _ _ => hsent'⟩
    · intro hok
      rcases hend with ⟨-, rfl, -⟩ | ⟨-, hreplied⟩
      · cases hok
      · obtain ⟨reply, hreply, heq⟩ := hreplied.reply (Option.some.inj hok)
        refine ⟨reply, hreply, ?_⟩
        rw [List.append_assoc, ← heq, hin]
        exact hgreeted.2
    · rw [longDomainReply_iff hgreeted hle]
      rcases hend with ⟨herror, -, rfl⟩ | ⟨herror, hreplied⟩
      · have hall : Fits s'.asked := by
          rw [hasked]
          show Fits [(.greetingResponse, 2)]
          decide
        refine iff_of_true hall ?_
        rintro ⟨hok, -⟩
        exact absurd (herror.symm.trans hok) (by decide)
      · obtain ⟨asked, hasked', hfits⟩ := hreplied.asked
        have hall : Fits s'.asked ↔ Fits asked := by
          rw [show s'.asked = s₁.asked ++ asked from hasked', hasked]
          show Fits ((.greetingResponse, 2) :: asked) ↔ _
          rw [fits_cons]
          exact and_iff_right (by decide)
        rw [hall, hfits, hin]
        exact not_congr ⟨fun h => ⟨herror, h⟩, And.right⟩

/-- **A reply that does not fit**: success, with a name of 255 bytes and a port. The handshake
succeeds, having asked for 257 bytes into an array of 256. -/
theorem domain_reply_overflows :
    let s : ProxySocket :=
      { incoming := [0x05, 0x00, 0x05, 0x00, 0x00, 0x03, 0xFF] ++ List.replicate 257 0x61 }
    let p := s.performTorHandshake [0x61, 0x2E, 0x6F, 0x6E, 0x69, 0x6F, 0x6E] 9050
    p.1 = some true ∧ (.dropBuffer, 257) ∈ p.2.asked ∧ ReadBuffer.size .dropBuffer = 256 := by
  decide +kernel

/-- The usual reply has an address of four bytes; the next byte is that of the relay. -/
theorem tor_handshake_iff_ipv4 :
    let s : ProxySocket :=
      { incoming := [0x05, 0x00] ++ [0x05, 0x00, 0x00, 0x01, 0, 0, 0, 0, 0, 0] ++ [0x2A] }
    let p := s.performTorHandshake [0x61, 0x2E, 0x6F, 0x6E, 0x69, 0x6F, 0x6E] 9050
    p.1 = some true ∧ p.2.incoming = [0x2A] ∧ Fits p.2.asked := by
  intro s p
  have hrun : s.performTorHandshake [0x61, 0x2E, 0x6F, 0x6E, 0x69, 0x6F, 0x6E] 9050 =
      (p.1, p.2) := Prod.mk.eta.symm
  have h := tor_handshake_iff s.incoming [] _ 9050 p.1 p.2 hrun
  refine ⟨by decide +kernel, by decide +kernel, h.2.2.2.2.mpr ?_⟩
  rintro ⟨-, -, -, rsv, rest, hrest⟩
  simp [s] at hrest

end BlankChat.Network
