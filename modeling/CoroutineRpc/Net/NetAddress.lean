import CoroutineRpc.Library.Search
import CoroutineRpc.Text

/-! `IPAddress`: "host:port" checked, taken apart and written again.

`CheckValidIPAddr` and the constructor each read the port with `atoi`, which takes the digits
that come first, of their value the low 32 bits, and anything else for nothing. `inet_addr` is
not part of the code: it is a parameter. An address that is written is read back
(`ofString_toString`); the checked text holds a port number exactly when it is all digits and
they denote at most 65535 (`survives_iff`). -/
namespace CoroutineRpc.Net
open Library.Search

def INADDR_NONE : BitVec 32 := 0xffffffff

def AF_INET : BitVec 16 := 2

/-- The host has its low byte first. -/
def htons (port : BitVec 16) : BitVec 16 := port.rotateLeft 8

structure SockaddrIn where
  sinFamily : BitVec 16
  sinPort : BitVec 16
  sinAddr : BitVec 32
deriving DecidableEq

structure IPAddress where
  ip : Bytes
  port : BitVec 16
  addr : SockaddrIn
deriving DecidableEq

namespace IPAddress
variable (inetAddr : Bytes → BitVec 32)

def checkValidIPAddr (addr : Bytes) : Bool :=
  match find (ascii ":") addr with
  | none => false
  | some i =>
    let port := atoi (addr.drop (i + 1))
    if port < 0 ∨ port > 65536 then false
    else if inetAddr (cString (addr.take i)) = INADDR_NONE then false
    else true

/-- The constructor on a string; `raw` is what the object holds before it. -/
def ofString (raw : IPAddress) (addr : Bytes) : IPAddress :=
  match find (ascii ":") addr with
  | none => {raw with ip := []}
  | some i =>
    let ip := addr.take i
    let port := BitVec.ofInt 16 (atoi (addr.drop (i + 1)))
    {ip, port, addr := {sinFamily := AF_INET, sinPort := htons port, sinAddr := inetAddr (cString ip)}}

def getIP (a : IPAddress) : Bytes := a.ip

def getPort (a : IPAddress) : Int := a.port.toNat

def toString (a : IPAddress) : Bytes := a.ip ++ ascii ":" ++ decimal a.port.toNat

/-! ### Written and read back -/

variable {inetAddr}

theorem drop_cut {addr host text : Bytes} (h : FirstCut (ascii ":") addr host text) :
    addr.drop (host.length + 1) = text := by
  obtain rfl := h.whole
  rw [← List.append_assoc]
  exact List.drop_left' List.length_append

theorem ofString_cut {addr host text : Bytes} (h : FirstCut (ascii ":") addr host text) (raw : IPAddress) :
    ofString inetAddr raw addr =
      ⟨host, .ofInt 16 (atoi text), AF_INET, htons (.ofInt 16 (atoi text)), inetAddr (cString host)⟩ := by
  have htake : addr.take host.length = host := by rw [h.whole, List.take_left]
  simp only [ofString, h.find_eq, htake, drop_cut h]

theorem atoi_decimal_port (port : BitVec 16) : atoi (decimal port.toNat) = port.toNat := by
  have hport := port.isLt
  have hmax : digitsValue (decimal port.toNat) < 2 ^ 31 := by
    rw [digitsValue_decimal]
    omega
  rw [atoi_digits (decimal_ne_nil _) (decimal_isdigit _) hmax, digitsValue_decimal]

/-- **An address that is written is read back**, whatever it was made of. -/
theorem ofString_toString {addr host text : Bytes} (hcut : FirstCut (ascii ":") addr host text)
    (raw raw' : IPAddress) :
    ofString inetAddr raw' (toString (ofString inetAddr raw addr)) = ofString inetAddr raw addr := by
  rw [ofString_cut hcut]
  generalize BitVec.ofInt 16 (atoi text) = port
  have hwritten : FirstCut (ascii ":") (host ++ ascii ":" ++ decimal port.toNat) host (decimal port.toNat) := by
    refine firstCut_element.mpr ⟨?_, (firstCut_element.mp hcut).2⟩
    rw [List.append_assoc]
    rfl
  rw [toString, ofString_cut hwritten, atoi_decimal_port, BitVec.ofInt_natCast, BitVec.ofNat_toNat,
    BitVec.setWidth_eq]

/-! ### What the check accepts -/

theorem checkValidIPAddr_accepts {addr : Bytes} (h : checkValidIPAddr inetAddr addr = true) :
    ∃ host text, FirstCut (ascii ":") addr host text ∧ 0 ≤ atoi text ∧ atoi text ≤ 65536 := by
  unfold checkValidIPAddr at h
  split at h
  · cases h
  · rename_i i hf
    dsimp only at h
    split at h
    · cases h
    · rename_i hrange
      rw [not_or, not_lt, not_lt] at hrange
      exact ⟨_, _, firstCut_of_find hf, hrange⟩

/-- The text of a port in decimal. -/
structure PortText (text : Bytes) (port : Int) : Prop where
  nonempty : text ≠ []
  digits : ∀ c ∈ text, isdigit c = true
  value : port = digitsValue text
  range : port < 2 ^ 16

/-- The port that is constructed is the number that was checked, the text behind the first colon is
that port, and writing the address and constructing it again gives the same. -/
def Survives (inetAddr : Bytes → BitVec 32) (raw : IPAddress) (addr : Bytes) : Prop :=
  ∃ host text, FirstCut (ascii ":") addr host text ∧
    let a := ofString inetAddr raw addr
    a.getPort = atoi text ∧ PortText text (atoi text) ∧
      ∀ raw', let again := ofString inetAddr raw' (toString a)
        again.getIP = a.getIP ∧ again.getPort = a.getPort

theorem getPort_ofInt {n : Int} (h : 0 ≤ n) (hmax : n < 2 ^ 16) (host : Bytes) (addr : SockaddrIn) :
    getPort ⟨host, .ofInt 16 n, addr⟩ = n := by
  obtain ⟨m, rfl⟩ := Int.eq_ofNat_of_zero_le h
  show ((BitVec.ofInt 16 m).toNat : Int) = m
  rw [BitVec.ofInt_natCast, BitVec.toNat_ofNat, Nat.mod_eq_of_lt (by omega)]

/-- **A checked address survives** when what is behind its first colon is digits of 65535 at most. -/
theorem survives_iff (raw : IPAddress) {addr : Bytes} (h : checkValidIPAddr inetAddr addr = true) :
    Survives inetAddr raw addr ↔ ∀ host text, FirstCut (ascii ":") addr host text →
      text ≠ [] ∧ (∀ c ∈ text, isdigit c = true) ∧ digitsValue text ≤ 65535 := by
  constructor
  · rintro ⟨host, text, hcut, -, hport, -⟩ host' text' hcut'
    obtain ⟨rfl, rfl⟩ := hcut.unique hcut'
    refine ⟨hport.nonempty, hport.digits, ?_⟩
    have hrange := hport.range
    rw [hport.value] at hrange
    omega
  · intro hcond
    obtain ⟨host, text, hcut, -, -⟩ := checkValidIPAddr_accepts h
    obtain ⟨hne, hdigits, hmax⟩ := hcond host text hcut
    have hatoi := atoi_digits hne hdigits (by omega)
    refine ⟨host, text, hcut, ?_, ⟨hne, hdigits, hatoi, by omega⟩, fun raw' => ?_⟩
    · rw [ofString_cut hcut, getPort_ofInt (by omega) (by omega)]
    · rw [ofString_toString hcut]
      exact ⟨rfl, rfl⟩

/-- `inet_addr` as far as it knows one host. -/
def loopback (host : Bytes) : BitVec 32 := if host = ascii "127.0.0.1" then 0x0100007f else INADDR_NONE

def blank : IPAddress := ⟨[], 0, 0, 0, 0⟩

theorem survives_iff_instance : checkValidIPAddr loopback (ascii "127.0.0.1:8080") = true ∧
    Survives loopback blank (ascii "127.0.0.1:8080") := by
  have hvalid : checkValidIPAddr loopback (ascii "127.0.0.1:8080") = true := by decide +kernel
  have hthere : FirstCut (ascii ":") (ascii "127.0.0.1:8080") (ascii "127.0.0.1") (ascii "8080") :=
    firstCut_element.mpr ⟨by decide, by decide⟩
  refine ⟨hvalid, (survives_iff blank hvalid).mpr fun host text hcut => ?_⟩
  obtain ⟨rfl, rfl⟩ := hcut.unique hthere
  exact ⟨by decide, by decide, by decide⟩

/-- The check lets one number too many pass; it becomes port 0. -/
theorem not_survives_boundary : ¬ ∀ (inetAddr : Bytes → BitVec 32) (raw : IPAddress) (addr : Bytes),
    checkValidIPAddr inetAddr addr = true → Survives inetAddr raw addr := by
  intro h
  obtain ⟨host, text, hcut, hport, -⟩ := h loopback blank (ascii "127.0.0.1:65536") (by decide +kernel)
  have hthere : FirstCut (ascii ":") (ascii "127.0.0.1:65536") (ascii "127.0.0.1") (ascii "65536") :=
    firstCut_element.mpr ⟨by decide, by decide⟩
  obtain ⟨rfl, rfl⟩ := hcut.unique hthere
  exact absurd hport (by decide +kernel)

/-- Of a longer number the check sees the low bits: 2³² + 80 passes for 80. -/
example : checkValidIPAddr loopback (ascii "127.0.0.1:4294967376") = true ∧
    (ofString loopback blank (ascii "127.0.0.1:4294967376")).getPort = 80 := by decide +kernel

end IPAddress

end CoroutineRpc.Net
