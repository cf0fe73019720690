/-
  Datad/Screen/Carriers.lean
  ==========================
  **The carriers on the home page** (`parse_ca`, `carriers` and `summary` of
  `rust/src/project/screen.rs`).

  Carriers come from four places: the serving 5G cell, whose band is not known (0), the
  records of `nrca` and of `lteca`, and the serving 4G cell where there is no such record.
  The configured ones are counted once, by kind, cell and band; the active ones are
  counted as they come.
-/
import Datad.Lib.Firsts
import Datad.Screen.Scalars

namespace Datad

namespace Screen

open Bytes Firsts

def CA_MAX : Nat := 5

/-! ### What is read of the state -/

/-- The fields of the network that the carriers are made from. -/
structure Data where
  netType : String := ""
  band : String := ""
  nrBand : String := ""
  nrSnr : String := ""
  lteSnr : String := ""
  bandwidth : String := ""
  ltePci : Int := 0
  channel : Int := 0
  nrBw : String := ""
  nrca : String := ""
  lteca : String := ""
  nrRsrp : Int := 0
  nrRsrq : Int := 0
  lteRsrp : Int := 0
  lteRsrq : Int := 0
  nrPci : Int := 0
  nrChannel : Int := 0
deriving DecidableEq, Repr

def get (obj : Value) (key : String) : Option Value :=
  match obj with
  | .obj members => (members.find? fun p => p.1 = key).map Prod.snd
  | _ => none

section Parse

variable (ryu : Ryu)

/-- The text of a member, without the quotes of a string. -/
def raw (obj : Value) (key : String) : Option String :=
  (get obj key).map fun
    | .str s => s
    | v => v.toText ryu

def getstr (obj : Value) (key : String) (cap : Nat) : String :=
  cstr ((raw ryu obj key).getD "") cap

def getInt (obj : Value) (key : String) (default : Int) : Int :=
  ((raw ryu obj key).bind strtol).getD default

/-- The part of `parse` that the carriers need. -/
def parse (state : Value) : Data :=
  match get state "net" with
  | none => {}
  | some net =>
      { netType := getstr ryu net "type" 16
        band := getstr ryu net "band" 16
        nrBand := getstr ryu net "nr_band" 16
        nrSnr := getstr ryu net "nr_snr" 12
        lteSnr := getstr ryu net "lte_snr" 12
        bandwidth := getstr ryu net "bandwidth" 12
        ltePci := asI32 (getInt ryu net "lte_pci" 0)
        channel :=
          if getInt ryu net "channel" 0 = 0 then getInt ryu net "lte_channel" 0
          else getInt ryu net "channel" 0
        nrBw := getstr ryu net "nr_bw" 12
        nrca := getstr ryu net "nrca" 256
        lteca := getstr ryu net "lteca" 256
        nrRsrp := asI32 (getInt ryu net "nr_rsrp" 0)
        nrRsrq := asI32 (getInt ryu net "nr_rsrq" 0)
        lteRsrp := asI32 (getInt ryu net "lte_rsrp" 0)
        lteRsrq := asI32 (getInt ryu net "lte_rsrq" 0)
        nrPci := asI32 (getInt ryu net "nr_pci" 0)
        nrChannel := getInt ryu net "nr_channel" 0 }

end Parse

/-! ### The carriers -/

inductive Kind where
  | nr | lte
deriving DecidableEq, Repr

structure Carrier (F : Type) where
  kind : Kind
  /-- 0 when the record does not have it. -/
  band : Int
  pci : Int
  bw : Int
  active : Bool
  arfcn : Int
  rsrp : String := ""
  rsrq : String := ""
  sinr : String := ""
  label : String := ""
  labelShort : String := ""
  sinrTone : Tone := .ok
  rsrpV : F
  rsrqV : F
  sinrV : F

section Carriers

variable {F : Type} (fl : Doubles F)

/-- A record of 5 numbers has no signal values; in one of 11, an RSRP at the floor is a
    carrier that is configured and not scheduled. -/
def readRecord (kind : Kind) (rec : List Char) : Option (Carrier F) :=
  match scanFloats fl 11 rec with
  | [pci, band, _, arfcn, bw] =>
      some
        { kind
          band := asI32 (fl.toInt band)
          pci := asI32 (fl.toInt pci)
          bw := asI32 (fl.toInt bw)
          active := true
          arfcn := fl.toInt arfcn
          rsrpV := fl.zero
          rsrqV := fl.zero
          sinrV := fl.zero }
  | [_, pci, _, band, arfcn, bw, _, rsrp, rsrq, sinr, _] =>
      some
        { kind
          band := asI32 (fl.toInt band)
          pci := asI32 (fl.toInt pci)
          bw := asI32 (fl.toInt bw)
          active := fl.lt (fl.ofInt (-140)) rsrp
          arfcn := fl.toInt arfcn
          rsrpV := rsrp
          rsrqV := rsrq
          sinrV := sinr }
  | _ => none

/-- The records of a descriptor. -/
def records (s : String) : List (List Char) :=
  ((cstr s 256).toList.splitOn ';').filter fun rec => !(rec.isEmpty)

/-- One record after another, until there are `max` carriers. -/
def parseFrom (max : Nat) (kind : Kind) :
    List (Carrier F) → List (List Char) → List (Carrier F)
  | out, [] => out
  | out, rec :: recs =>
      if out.length ≥ max then out
      else
        match readRecord fl kind rec with
        | none => parseFrom max kind out recs
        | some c => parseFrom max kind (out ++ [c]) recs

def parseCa (s : String) (max : Nat) (kind : Kind) : List (Carrier F) :=
  parseFrom fl max kind [] (records s)

structure NetView (F : Type) where
  carriers : List (Carrier F) := []
  actN : Int := 0
  actBw : Int := 0
  actNr : Int := 0
  actLte : Int := 0
  cfg : Int := 0
  nrBand0 : Int := 0
  nrMhz : Int := 0
  nosvc : Bool := false
  caVal : String := ""
  caSub : String := ""
  caValEn : String := ""
  caSubEn : String := ""

def onNr (d : Data) : Bool := ratOf d.netType = .sa || ratOf d.netType = .nsa

/-- There is a serving 5G cell: an idle leg still has an RSRP, but no band, width or
    channel. -/
def servesNr (d : Data) : Bool :=
  onNr d && decide (d.nrRsrp ≠ 0) &&
    (decide (d.nrBand ≠ "") || decide (atoi d.nrBw > 0) || decide (d.nrChannel > 0))

def snr (s : String) : F := atof fl (if s = "" then "0" else s)

def servingNr (d : Data) : Carrier F :=
  { kind := .nr
    band := 0
    pci := d.nrPci
    bw := asI32 (atoi d.nrBw)
    active := true
    arfcn := d.nrChannel
    rsrpV := fl.ofInt d.nrRsrp
    rsrqV := fl.ofInt d.nrRsrq
    sinrV := snr fl d.nrSnr }

def servingLte (d : Data) : Carrier F :=
  { kind := .lte
    band := atoiAfterFirstByte (bandShort d.band false)
    pci := d.ltePci
    bw := asI32 (atoi d.bandwidth)
    active := true
    arfcn := d.channel
    rsrpV := fl.ofInt d.lteRsrp
    rsrqV := fl.ofInt d.lteRsrq
    sinrV := snr fl d.lteSnr }

/-- The record of the serving cell gets the signal values of that cell, if it has none. -/
def withSignal (d : Data) (c : Carrier F) : Carrier F :=
  if fl.eq c.rsrpV fl.zero && decide (c.pci = d.ltePci) && decide (d.lteRsrp ≠ 0) then
    { c with
      rsrpV := fl.ofInt d.lteRsrp
      rsrqV := fl.ofInt d.lteRsrq
      sinrV := snr fl d.lteSnr }
  else c

/-- The carriers of 5G. -/
def nrCarriers (d : Data) : List (Carrier F) :=
  let ca := if servesNr d then [servingNr fl d] else []
  if onNr d then ca ++ parseCa fl d.nrca (CA_MAX - ca.length) .nr else ca

def lteCarriers (d : Data) (room : Nat) : List (Carrier F) :=
  let rat := ratOf d.netType
  if 0 < room ∧ rat ≠ .g3 ∧ rat ≠ .g2 then
    let lte := (parseCa fl d.lteca room .lte).map (withSignal fl d)
    if lte.length = 0 ∧ d.lteRsrp ≠ 0 ∧ (rat = .g4 ∨ rat = .nsa) then lte ++ [servingLte fl d]
    else lte
  else []

/-- Labels and texts. -/
def shown (d : Data) (c : Carrier F) : Carrier F :=
  let (label, labelShort) :=
    if c.band ≠ 0 then
      let label := cstr ((if c.kind = .nr then "n" else "B") ++ int c.band) 16
      (label, label)
    else if c.kind = .nr then
      (cstr (if d.nrBand = "" then "-" else d.nrBand) 16, bandShort d.nrBand true)
    else (bandShort d.band false, bandShort d.band false)
  { c with
    label
    labelShort
    rsrp := fl.fmt0 c.rsrpV
    rsrq := fl.fmt0 c.rsrqV
    sinr := fl.fmt1 c.sinrV
    sinrTone :=
      if fl.le (fl.ofInt 13) c.sinrV then .ok else if fl.le fl.zero c.sinrV then .warn else .bad }

/-- Count a carrier that is active. -/
def count (v : NetView F) (c : Carrier F) : NetView F :=
  if c.active then
    { v with
      actN := v.actN + 1
      actBw := v.actBw + c.bw
      actNr := if c.kind = .nr then v.actNr + 1 else v.actNr
      actLte := if c.kind = .nr then v.actLte else v.actLte + 1 }
  else v

/-- The first band of the active 5G carriers, and their width. -/
def countNr (d : Data) (v : NetView F) (c : Carrier F) : NetView F :=
  if c.active && c.kind = .nr then
    { v with
      nrBand0 :=
        if v.nrBand0 = 0 then
          if c.band ≠ 0 then c.band else atoiAfterFirstByte (bandShort d.nrBand true)
        else v.nrBand0
      nrMhz := v.nrMhz + c.bw }
  else v

def carriers (d : Data) (v : NetView F) : NetView F :=
  let nr := nrCarriers fl d
  let ca := (nr ++ lteCarriers fl d (CA_MAX - nr.length)).map (shown fl d)
  { ca.foldl (countNr d) (ca.foldl count v) with carriers := ca }

/-! ### The line that sums them up -/

/-- The same configured carrier: of one kind and cell and on one band, where 0 is any
    band. -/
def same (c c' : Carrier F) : Bool :=
  decide (c.kind = c'.kind) && decide (c.pci = c'.pci) &&
    (decide (c.band = c'.band) || decide (c.band = 0) || decide (c'.band = 0))

/-- The active carriers and the first of them, as long as 16 bytes fit into the 120 of the
    line. -/
def listFrom (lo : Nat) (list first : String) : List (Carrier F) → String × String
  | [] => (list, first)
  | c :: ca =>
      if lo + 16 ≥ 120 then (list, first)
      else if !c.active then listFrom lo list first ca
      else
        let piece :=
          (if lo > 0 then " + " else "") ++ c.labelShort ++
            if c.bw ≠ 0 then " " ++ int c.bw ++ "M" else ""
        listFrom (lo + (utf8 piece).length) (list ++ piece)
          (if first = "" then cstr c.labelShort 20 else first) ca

def summary (d : Data) (v : NetView F) : NetView F :=
  let v : NetView F := { v with cfg := v.cfg + (firsts same v.carriers).length }
  let (list, first) := listFrom 0 "" "" v.carriers
  let list := cstr list 120
  let rat := ratOf d.netType
  let (caVal, caValEn, caSub) :=
    if v.actN = 0 ∧ (rat = .g3 ∨ rat = .g2) then
      ("无聚合", "No CA", if d.band = "" then "" else bandShort d.band false)
    else if v.actN = 0 then
      if v.nosvc then ("没连上基站", "No cell", "") else ("—", "—", "")
    else
      let sub := cstr ("↓ " ++ list ++ "   ↑ " ++ first) 160
      if v.cfg > v.actN then
        ("激活 " ++ int v.actN ++ "/" ++ int v.cfg, "Active " ++ int v.actN ++ "/" ++ int v.cfg, sub)
      else if v.actN > 1 then (int v.actN ++ " 载波聚合", int v.actN ++ "-carrier CA", sub)
      else ("单载波", "Single carrier", sub)
  { v with caVal, caSub, caValEn := enFor caVal caValEn 48, caSubEn := enFor caSub caSub 160 }

/-- `carriers` and `summary` as `net_view_op` has them, with what the verdict between them
    says of the service. -/
def netView (d : Data) (nosvc : Bool) : NetView F :=
  summary d { carriers fl d {} with nosvc }

end Carriers

end Screen

end Datad
