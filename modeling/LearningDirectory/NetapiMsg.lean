import LearningDirectory.Bytes
import LearningDirectory.PaddedField

/-! The message class of `msg.cpp`, the string that `netapi::sendmsg` puts on the
wire, and the slicing loops with which the receiver cuts it up again. -/
namespace LearningDirectory
open PaddedField

/-- The padding symbol `#`. -/
def hash : Byte := 35

theorem hash_not_mem_decimal (n : ℕ) : hash ∉ decimal n := by
  intro h
  obtain ⟨c, hc, he⟩ := List.mem_map.mp h
  have hd : c.isDigit = true := Nat.isDigit_of_mem_toDigits (by decide) (by decide) hc
  -- a digit is none of the other symbols, `#` being 35
  have hb : 48 ≤ c.toNat ∧ c.toNat ≤ 57 := by
    simp only [Char.isDigit, Bool.and_eq_true, decide_eq_true_eq] at hd
    exact ⟨by simpa using UInt32.le_iff_toNat_le.mp hd.1,
      by simpa using UInt32.le_iff_toNat_le.mp hd.2⟩
  have hv : (UInt8.ofNat c.toNat).toNat = 35 := by rw [he]; rfl
  rw [UInt8.toNat_ofNat', Nat.mod_eq_of_lt (by omega)] at hv
  omega

/-- The dotted text that `inet_ntop` writes for an IPv4 address. -/
def inetNtop (a b c d : UInt8) : Bytes :=
  decimal a.toNat ++ ascii ['.'] ++ decimal b.toNat ++ ascii ['.'] ++
    decimal c.toNat ++ ascii ['.'] ++ decimal d.toNat

abbrev IpText := Text 15 hash
abbrev ProcName := Text 8 hash
abbrev Content := Text 40 hash

theorem length_inetNtop_le (a b c d : UInt8) : (inetNtop a b c d).length ≤ 15 := by
  -- four numbers of at most three digits and three dots
  have h (x : UInt8) : (decimal x.toNat).length ≤ 3 :=
    (length_decimal_le (by decide)).mpr (x.toNat_lt.trans (by decide))
  have ha := h a
  have hb := h b
  have hc := h c
  have hd := h d
  simp only [inetNtop, ascii, List.length_append, List.length_map, List.length_cons,
    List.length_nil]
  omega

theorem hash_not_mem_inetNtop (a b c d : UInt8) : hash ∉ inetNtop a b c d := by
  have hdot : hash ∉ ascii ['.'] := by decide
  simp [inetNtop, hash_not_mem_decimal, hdot]

/-- Every dotted address fits its field. -/
def ipText (a b c d : UInt8) : IpText where
  text := inetNtop a b c d
  fits := length_inetNtop_le a b c d
  clean := hash_not_mem_inetNtop a b c d

structure Msg where
  toIp : Bytes := []
  fromIp : Bytes := []
  toPort : UInt16 := 0
  fromPort : UInt16 := 0
  isfile : Bool := false
  msgtype : Bytes := ascii ['n', 'o', 'r']
  fromProcessname : Bytes := []
  toProcessname : Bytes := []
  msgContent : Bytes := []
deriving DecidableEq

/-- `int pad_pos = s.size()`: the size wraps into the signed 32-bit range. -/
def sizeAsInt (s : Bytes) : ℤ := Int.bmod s.length (2^32)

/-- `for(i=pad_pos;i<width;i++) s += "#";` with `k` rounds to go. -/
def padLoop : ℕ → Bytes → Bytes
  | 0, s => s
  | k+1, s => padLoop k (s ++ [hash])

def padding (width : ℕ) (s : Bytes) : Bytes :=
  let padPos := sizeAsInt s
  if padPos < width then padLoop (width - padPos).toNat s else s

def ipPadding (addrstring : Bytes) : Bytes := padding 15 addrstring
def bodyPadding (content : Bytes) : Bytes := padding 40 content
def namePadding (procname : Bytes) : Bytes := padding 8 procname

theorem padLoop_eq (k : ℕ) (s : Bytes) : padLoop k s = s ++ List.replicate k hash := by
  induction k generalizing s with
  | zero => simp only [padLoop, List.replicate_zero, List.append_nil]
  | succ k ih => rw [padLoop, ih, List.append_assoc, List.replicate_succ, List.singleton_append]

theorem padding_append (width : ℕ) (s : Bytes) :
    ∃ k, padding width s = s ++ List.replicate k hash := by
  unfold padding
  dsimp only
  split
  · exact ⟨_, padLoop_eq _ s⟩
  · exact ⟨0, by rw [List.replicate_zero, List.append_nil]⟩

theorem padding_eq_pad (width : ℕ) (s : Bytes) (h : s.length < 2^31) :
    padding width s = pad width hash s := by
  have hp : sizeAsInt s = s.length := by
    apply Int.bmod_eq_of_le_mul_two <;> push_cast <;> omega
  have hk : ((width : ℤ)-s.length).toNat = width-s.length := by omega
  simp only [padding, hp, padLoop_eq, pad, hk]
  split
  · rfl
  -- a text that fills its field is not padded
  · exact (pad_eq_self (by omega) hash).symm

theorem padding_text {width : ℕ} (hw : width < 2^31) (s : Text width hash) :
    padding width s.text = pad width hash s.text :=
  padding_eq_pad width s.text (s.fits.trans_lt hw)

def serialize (m : Msg) : Bytes :=
  m.fromIp ++ decimal m.fromPort.toNat ++ m.toIp ++ decimal m.toPort.toNat ++
    ascii [if m.isfile then '1' else '0'] ++ m.fromProcessname ++ m.toProcessname ++
    m.msgtype ++ m.msgContent

/-- `#define SERVERADDR "127.0.0.1"` -/
def serverAddr : Bytes := ascii ['1', '2', '7', '.', '0', '.', '0', '.', '1']

/-- `#define SERVERPORT 10003` -/
def serverPort : UInt16 := 10003

/-- The address and port that `getsockname` reports for `localsock` go into the
message; the peer is always the server. -/
def msgWriteIpPort (localIp : Bytes) (localPort : UInt16) (sendmsg : Msg) : Msg :=
  { sendmsg with
    fromIp := localIp, fromPort := localPort, toIp := serverAddr, toPort := serverPort }

/-- The assignments and paddings of `netapi::sendmsg` after `msg_write_ip_port`. -/
def fillMsg (processname msgtype msgcontent toprocname : Bytes) (msg1 : Msg) : Msg :=
  { msg1 with
    fromIp := ipPadding msg1.fromIp
    toIp := ipPadding msg1.toIp
    fromProcessname := namePadding processname
    toProcessname := namePadding toprocname
    msgtype := msgtype
    msgContent := bodyPadding msgcontent }

/-- The string `netapi::sendmsg` passes to `send`. -/
def sendmsg (processname localIp : Bytes) (localPort : UInt16)
    (msgtype msgcontent toprocname : Bytes) : Bytes :=
  serialize (fillMsg processname msgtype msgcontent toprocname
    (msgWriteIpPort localIp localPort {}))

/-- The strings that `handle_msghead` collects from a head buffer. -/
structure Head where
  srcip : Bytes
  srcport : Bytes
  destip : Bytes
  destport : Bytes
  isfile : Bytes
  procname : Bytes
  toProcname : Bytes
  mType : Bytes
deriving DecidableEq

/-- `for(i=lo;i<hi;i++) { if(buf[i]=='#') break; out<<buf[i]; }` -/
def scanLoop (buf : Bytes) (lo hi : ℕ) : Bytes := scan (hi - lo) hash (buf.drop lo)

/-- `for(i=lo;i<hi;i++) out<<buf[i];` -/
def copyLoop (buf : Bytes) (lo hi : ℕ) : Bytes := slice buf lo hi

/-- The slicing loops of `handle_msghead` over the 60-byte head buffer. -/
def parseHead (headBuf : Bytes) : Head where
  srcip := scanLoop headBuf 0 15
  srcport := copyLoop headBuf 15 20
  destip := scanLoop headBuf 20 35
  destport := copyLoop headBuf 35 40
  isfile := copyLoop headBuf 40 41
  procname := scanLoop headBuf 41 49
  toProcname := scanLoop headBuf 49 57
  mType := copyLoop headBuf 57 60

/-- The slicing loop of `handle_msgbody` over the 40-byte body buffer. -/
def parseBody (buf : Bytes) : Bytes := scanLoop buf 0 40

end LearningDirectory
