import LearningDirectory.NetapiMsg

/-! The wire string of one message, written by `sendmsg` and cut up again by the
slicing loops of the receiver. -/
namespace LearningDirectory
open PaddedField

/-- The values one message carries, within the widths noted beside the members of `msg`. -/
structure Fields where
  fromIp : IpText
  toIp : IpText
  fromPort : UInt16
  toPort : UInt16
  isfile : Bool
  source : ProcName
  dest : ProcName
  mtype : Bytes
  mtypeSize : mtype.length = 3
  content : Content

def Fields.wire (f : Fields) : Bytes :=
  serialize (fillMsg f.source.text f.mtype f.content.text f.dest.text
    { fromIp := f.fromIp.text, toIp := f.toIp.text,
      fromPort := f.fromPort, toPort := f.toPort, isfile := f.isfile })

def isfileText (isfile : Bool) : Bytes := ascii [if isfile then '1' else '0']

def headText (fromIp srcport toIp destport isfile source dest mtype : Bytes) : Bytes :=
  fromIp ++ srcport ++ toIp ++ destport ++ isfile ++ source ++ dest ++ mtype

theorem wire_eq (f : Fields) :
    f.wire = headText (pad 15 hash f.fromIp.text) (decimal f.fromPort.toNat)
      (pad 15 hash f.toIp.text) (decimal f.toPort.toNat) (isfileText f.isfile)
      (pad 8 hash f.source.text) (pad 8 hash f.dest.text) f.mtype ++
      pad 40 hash f.content.text := by
  have hip (s : IpText) : ipPadding s.text = pad 15 hash s.text := padding_text (by decide) s
  have hname (s : ProcName) : namePadding s.text = pad 8 hash s.text := padding_text (by decide) s
  have hbody (s : Content) : bodyPadding s.text = pad 40 hash s.text :=
    padding_text (by decide) s
  simp only [Fields.wire, serialize, fillMsg, headText, isfileText, hip, hname, hbody]

theorem length_headText (fi ti : IpText) (p q : Bytes) (isfile : Bool) (src dst : ProcName)
    (t : Bytes) :
    (headText (pad 15 hash fi.text) p (pad 15 hash ti.text) q (isfileText isfile)
      (pad 8 hash src.text) (pad 8 hash dst.text) t).length =
      47 + p.length + q.length + t.length := by
  simp only [headText, List.length_append, length_pad_text, isfileText, ascii, List.length_map,
    List.length_cons, List.length_nil]
  omega

/-- On a head whose two ports fill their five columns every slicing loop starts at its field. -/
theorem parseHead_headText (fi ti : IpText) (p q : Bytes) (isfile : Bool) (src dst : ProcName)
    (t : Bytes) (hp : p.length = 5) (hq : q.length = 5) (ht : t.length = 3) :
    parseHead (headText (pad 15 hash fi.text) p (pad 15 hash ti.text) q (isfileText isfile)
      (pad 8 hash src.text) (pad 8 hash dst.text) t) =
      ⟨fi.text, p, ti.text, q, isfileText isfile, src.text, dst.text, t⟩ := by
  -- each field begins where the one before it ends
  have hstep {l a b : Bytes} (n k : ℕ) (h : l.drop n = a ++ b) (ha : a.length = k) :
      l.drop (n+k) = b := by
    rw [← List.drop_drop, h, List.drop_left' ha]
  simp only [headText, List.append_assoc]
  set l := pad 15 hash fi.text ++ _ with hl
  have h0 : l.drop 0 = _ := hl
  have h15 := hstep 0 15 h0 (length_pad_text fi)
  have h20 := hstep 15 5 h15 hp
  have h35 := hstep 20 15 h20 (length_pad_text ti)
  have h40 := hstep 35 5 h35 hq
  have h41 := hstep 40 1 h40 rfl
  have h49 := hstep 41 8 h41 (length_pad_text src)
  have h57 := hstep 49 8 h49 (length_pad_text dst)
  simp only [Nat.reduceAdd] at h15 h20 h35 h40 h41 h49 h57
  simp only [parseHead, scanLoop, copyLoop, slice, h0, h15, h20, h35, h40, h41, h49, h57,
    scan_pad_text, Nat.reduceSub]
  rw [List.take_left' hp, List.take_left' hq, List.take_of_length_le ht.le]
  rfl

/-- A port as the receiver may return it: its decimal text, possibly padded. -/
def PortText (port : UInt16) (s : Bytes) : Prop :=
  ∃ k, s = decimal port.toNat ++ List.replicate k hash

/-- The string is one frame and the receiver's loops return the values it was built from. -/
structure RoundTrips (f : Fields) : Prop where
  size : f.wire.length = 100
  srcip : (parseHead (f.wire.take 60)).srcip = f.fromIp.text
  srcport : PortText f.fromPort (parseHead (f.wire.take 60)).srcport
  destip : (parseHead (f.wire.take 60)).destip = f.toIp.text
  destport : PortText f.toPort (parseHead (f.wire.take 60)).destport
  isfile : (parseHead (f.wire.take 60)).isfile = isfileText f.isfile
  procname : (parseHead (f.wire.take 60)).procname = f.source.text
  toProcname : (parseHead (f.wire.take 60)).toProcname = f.dest.text
  mType : (parseHead (f.wire.take 60)).mType = f.mtype
  content : parseBody (f.wire.drop 60) = f.content.text

theorem length_wire (f : Fields) :
    f.wire.length = 90 + (decimal f.fromPort.toNat).length + (decimal f.toPort.toNat).length := by
  rw [wire_eq, List.length_append, length_headText, length_pad_text, f.mtypeSize]
  omega

/-- The values that the slicing loops are to find in the head. -/
def Fields.head (f : Fields) : Head where
  srcip := f.fromIp.text
  srcport := decimal f.fromPort.toNat
  destip := f.toIp.text
  destport := decimal f.toPort.toNat
  isfile := isfileText f.isfile
  procname := f.source.text
  toProcname := f.dest.text
  mType := f.mtype

section FiveDigits

variable {f : Fields} (hf : 10000 ≤ f.fromPort.toNat) (ht : 10000 ≤ f.toPort.toNat)
include hf ht

theorem length_wire_five : f.wire.length = 100 := by
  have hp := (length_decimal_five f.fromPort.toNat_lt).mpr hf
  have hq := (length_decimal_five f.toPort.toNat_lt).mpr ht
  rw [length_wire, hp, hq]

theorem parseHead_wire : parseHead (f.wire.take 60) = f.head := by
  have hp := (length_decimal_five f.fromPort.toNat_lt).mpr hf
  have hq := (length_decimal_five f.toPort.toNat_lt).mpr ht
  -- the head is the first 60 bytes, so the two buffers are cut where it ends
  have hlen := length_headText f.fromIp f.toIp (decimal f.fromPort.toNat)
    (decimal f.toPort.toNat) f.isfile f.source f.dest f.mtype
  rw [hp, hq, f.mtypeSize] at hlen
  rw [wire_eq, List.take_left' hlen]
  exact parseHead_headText _ _ _ _ _ _ _ _ hp hq f.mtypeSize

theorem parseBody_wire : parseBody (f.wire.drop 60) = f.content.text := by
  have hp := (length_decimal_five f.fromPort.toNat_lt).mpr hf
  have hq := (length_decimal_five f.toPort.toNat_lt).mpr ht
  have hlen := length_headText f.fromIp f.toIp (decimal f.fromPort.toNat)
    (decimal f.toPort.toNat) f.isfile f.source f.dest f.mtype
  rw [hp, hq, f.mtypeSize] at hlen
  rw [wire_eq, List.drop_left' hlen, parseBody, scanLoop, List.drop_zero]
  simpa using scan_pad_text f.content []

end FiveDigits

/-- Ports print without padding: a frame survives exactly when both have five digits. -/
theorem round_trips_iff (f : Fields) :
    RoundTrips f ↔ 10000 ≤ f.fromPort.toNat ∧ 10000 ≤ f.toPort.toNat := by
  constructor
  · intro h
    have hf := length_decimal_five f.fromPort.toNat_lt
    have ht := length_decimal_five f.toPort.toNat_lt
    have hfle : (decimal f.fromPort.toNat).length ≤ 5 :=
      (length_decimal_le (by decide)).mpr (f.fromPort.toNat_lt.trans (by decide))
    have htle : (decimal f.toPort.toNat).length ≤ 5 :=
      (length_decimal_le (by decide)).mpr (f.toPort.toNat_lt.trans (by decide))
    -- the ports print at most five digits each, and 100 bytes leave no room for less
    have hs := h.size
    rw [length_wire] at hs
    exact ⟨hf.mp (by omega), ht.mp (by omega)⟩
  · rintro ⟨hf, ht⟩
    have hsize := length_wire_five hf ht
    have hhead := parseHead_wire hf ht
    have hbody := parseBody_wire hf ht
    have hport (port : UInt16) : PortText port (decimal port.toNat) :=
      ⟨0, by rw [List.replicate_zero, List.append_nil]⟩
    constructor <;> simp only [hhead, Fields.head, hbody, hsize, hport]

def client1Name : ProcName :=
  ⟨ascii ['c', 'l', 'i', 'e', 'n', 't', '1'], by decide, by decide⟩

def server1Name : ProcName :=
  ⟨ascii ['s', 'e', 'r', 'v', 'e', 'r', '1'], by decide, by decide⟩

/-- A client bound to port 9999 greets `server1`. -/
def shortPortFields : Fields where
  fromIp := ipText 127 0 0 1
  toIp := ipText 127 0 0 1
  fromPort := 9999
  toPort := serverPort
  isfile := false
  source := client1Name
  dest := server1Name
  mtype := ascii ['n', 'o', 'r']
  mtypeSize := rfl
  content := ⟨ascii ['h', 'i'], by decide, by decide⟩

theorem short_port_not_round_trips : ¬ RoundTrips shortPortFields := by
  intro h
  have hs := h.size
  rw [length_wire] at hs
  exact absurd hs (by decide)

end LearningDirectory
