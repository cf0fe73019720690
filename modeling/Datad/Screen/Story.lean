/-
  Datad/Screen/Story.lean
  =======================
  **The verdict on the home page** (`story` and `with_op` of
  `rust/src/project/screen.rs`).

  The indicators beside the verdict (signal, noise, load, limit) are computed first, and
  the verdict by a chain of conditions over the same readings.  Whichever of the seventeen
  verdicts is reached, what it says about signal, noise, load and limit is what the
  indicators show (`Reaches`); an operation in progress is laid over the verdict and leaves
  them alone.
-/
import Datad.Screen.Scalars

namespace Datad

namespace Screen

/-! ### What is read, and what is shown -/

inductive Cause where
  | none | limit | weak | noise | crowd | narrow
deriving DecidableEq, Repr

inductive State where
  | ok | nosim | airplane | sos | nosvc | nodata | stall | limit | weak | noise | crowd
  | only2g | only3g | narrow
  /-- The firmware slows down because of the heat. -/
  | hot
  /-- An operation is in progress. -/
  | changing
  /-- It was undone, and that did not help. -/
  | revertFail
deriving DecidableEq, Repr

inductive Sw where
  | unknown | on | off
deriving DecidableEq, Repr

structure CellWindow where
  rxPackets : Nat
  txPackets : Nat
deriving DecidableEq, Repr

structure NetIn where
  simState : String
  airplane : Bool
  netType : String
  bars : Int
  dataUp : Bool
  connected : Bool
  win : Option CellWindow
  roaming : Int
  nActive : Int
  nrActive : Int
  lteActive : Int
  mhz : Int
  sinrValid : Bool
  sinr : ℚ
  rsrpValid : Bool
  rsrp : Int
  rsrqValid : Bool
  rsrq : Int
  mcc : Int
  mnc : Int
  nrBand : Int
  nrMhz : Int
  rxBps : Int
  ambrDl : ℚ
  netSelect : String
  dataSw : Sw
  roamSw : Sw
  hot : Bool

structure Story where
  tone : Tone := .ok
  cause : Cause := .none
  sigTone : Tone := .ok
  noiseTone : Tone := .ok
  headline : String := ""
  hint : String := ""
  rat : String := ""
  link : String := ""
  sig : String := ""
  noise : String := ""
  load : String := ""
  limit : String := ""
  state : State := .ok
  headlineEn : String := ""
  hintEn : String := ""
  ratEn : String := ""
  linkEn : String := ""
  sigEn : String := ""
  noiseEn : String := ""
  loadEn : String := ""
  limitEn : String := ""
deriving DecidableEq, Repr

def Story.finishEn (o : Story) : Story :=
  { o with
    headlineEn := enFor o.headline o.headlineEn 32
    hintEn := enFor o.hint o.hintEn 128
    ratEn := enFor o.rat o.ratEn 32
    linkEn := enFor o.link o.linkEn 96
    sigEn := enFor o.sig o.sigEn 8
    noiseEn := enFor o.noise o.noiseEn 8
    loadEn := enFor o.load o.loadEn 12
    limitEn := enFor o.limit o.limitEn 8 }

/-! ### The indicators -/

def netLabel (raw : String) : String :=
  match ratOf raw with
  | .sa | .nsa => if has5a raw then "5G-A" else "5G"
  | .g4 => "4G"
  | .g3 => "3G"
  | .g2 => "2G"
  | .none => ""

namespace NetIn

def rat (i : NetIn) : Rat := ratOf i.netType

def nr (i : NetIn) : Bool := i.rat = .sa || i.rat = .nsa

def limited (i : NetIn) : Bool := hasCi i.netType "LIMIT" || hasCi i.netType "EMERGENCY"

/-- Carriers of one shared network that are wide enough together. -/
def wide5a (i : NetIn) : Bool :=
  let shared := i.mnc = 1 || i.mnc = 3 || i.mnc = 5 || i.mnc = 6 || i.mnc = 9 || i.mnc = 11
  i.nrActive ≥ 3 || (shared && i.nrActive ≥ 2 && i.nrMhz ≥ 200)

def netBadge (i : NetIn) : String :=
  let out := netLabel i.netType
  if i.limited then "SOS"
  else if i.nr then
    if i.mcc = 460 then if i.wide5a then "5G-A" else out
    else if i.mcc = 440 ∧ i.mnc = 10 then
      if i.nrBand = 78 ∨ i.nrBand = 79 then "5G+" else out
    else if i.mcc = 310 ∧ i.mnc = 260 then if i.nrBand = 41 then "5G UC" else out
    else if i.mcc = 311 ∧ i.mnc = 480 then
      if i.nrBand = 77 ∨ i.nrBand = 48 then "5G UW" else out
    else if i.mcc = 310 ∧ i.mnc = 410 ∧ (i.nrBand = 77 ∨ i.mhz ≥ 50) then "5G+"
    else out
  else if i.rat = .g4 then
    if i.mcc = 440 ∧ i.mnc = 10 then "4G+"
    else if i.lteActive ≥ 2 ∧ (i.mcc = 466 ∨ i.mcc = 440 ∨ i.mcc = 460) then "4G+"
    else if 310 ≤ i.mcc ∧ i.mcc ≤ 316 then "LTE"
    else out
  else out

/-- How wide the carriers are together, in Chinese and English. -/
def widthWord (i : NetIn) : String × String :=
  if i.mhz ≥ 200 then ("带宽很宽", "Very wide")
  else if i.mhz ≥ 100 then ("带宽充足", "Wide")
  else if i.mhz ≥ 40 then ("带宽一般", "Fair")
  else if i.mhz > 0 then ("带宽偏窄", "Narrow")
  else ("", "")

def carriersWord (i : NetIn) : String × String :=
  if i.rat = .nsa then
    ("4G 锚点 + 5G，" ++ int i.nActive ++ " 条载波",
      "4G anchor + 5G, " ++ int i.nActive ++ " carrier" ++ if i.nActive = 1 then "" else "s")
  else if i.nActive > 1 then (int i.nActive ++ " 条载波聚合", int i.nActive ++ "-carrier CA")
  else ("单载波", "Single carrier")

def linkWord (i : NetIn) : String × String :=
  if i.rat = .g2 ∨ i.rat = .g3 then ("这个制式没有载波聚合", "No CA on this network")
  else if i.nActive > 0 then
    let sep := if i.widthWord.1 = "" then "" else " · "
    (cstr (cstr i.carriersWord.1 64 ++ sep ++ i.widthWord.1) 96,
      cstr (cstr i.carriersWord.2 64 ++ sep ++ i.widthWord.2) 96)
  else ("", "")

/-- The tier of the signal. -/
def st (i : NetIn) : Int := barsTier i.bars

/-- 2 for little noise, 0 for much, -1 when it is not known. -/
def nq (i : NetIn) : Int :=
  if i.sinrValid then if i.sinr ≥ 13 then 2 else if i.sinr ≥ 0 then 1 else 0 else -1

def loadKnown (i : NetIn) : Bool := i.rxBps ≥ 125000 && i.st ≥ 1 && i.rsrqValid

def crowd (i : NetIn) : Bool := i.loadKnown && i.rsrq < if i.nr then -15 else -12

def capped (i : NetIn) : Bool := 0 < i.ambrDl && i.ambrDl < 10

def narrow (i : NetIn) : Bool :=
  i.nActive = 1 && 0 < i.mhz && i.mhz ≤ 20 && (i.rat = .g4 || i.nr)

def toneOf (tier : Int) : Tone := if tier = 2 then .ok else if tier = 1 then .warn else .bad

/-- What is shown beside the verdict. -/
def indicators (i : NetIn) : Story :=
  let badge := cstr i.netBadge 32
  { rat := badge
    ratEn := badge
    link := i.linkWord.1
    linkEn := i.linkWord.2
    sig := if i.st < 0 then "" else if i.st = 0 then "弱" else if i.st = 1 then "中" else "强"
    sigEn :=
      if i.st < 0 then "" else if i.st = 0 then "Weak" else if i.st = 1 then "Fair" else "Strong"
    sigTone := if i.st < 0 then .ok else toneOf i.st
    noise := if i.nq < 0 then "" else if i.nq = 0 then "大" else if i.nq = 1 then "中" else "小"
    noiseEn :=
      if i.nq < 0 then "" else if i.nq = 0 then "high" else if i.nq = 1 then "mid" else "low"
    noiseTone := if i.nq < 0 then .ok else toneOf i.nq
    load := if i.loadKnown then if i.crowd then "高" else "正常" else ""
    loadEn := if i.loadKnown then if i.crowd then "high" else "normal" else ""
    limit := if i.ambrDl ≤ 0 then "—" else if i.capped then "有" else "无"
    limitEn := if i.ambrDl ≤ 0 then "—" else if i.capped then "capped" else "none" }

def roamNote (i : NetIn) : String := if i.roaming = 1 then "；漫游中" else ""

def roamEn (i : NetIn) : String := if i.roaming = 1 then "; roaming" else ""

end NetIn

/-! ### The verdict -/

/-- A verdict, written once in Chinese and English. -/
def say (o : Story) (state : State) (cause : Cause) (tone : Tone) (head hint : String × String) :
    Story :=
  { o with
    state
    cause
    tone
    headline := cstr head.1 32
    headlineEn := head.2
    hint := cstr hint.1 128
    hintEn := hint.2 }.finishEn

def simUsable (st : String) : Bool := st = "" || has st "ready"

def stalled (i : NetIn) : Bool :=
  i.connected && i.win.any fun w => w.txPackets ≥ 20 && w.rxPackets = 0

def story (i : NetIn) : Story :=
  let o := i.indicators
  let pin := pinnedMode i.netSelect
  if ¬ simUsable i.simState then
    say o .nosim .none .bad ("无 SIM", "No SIM")
      ("插卡，或在「蜂窝 → SIM 与 eSIM」启用",
        "Insert a SIM, or enable an eSIM profile in SIM & eSIM")
  else if i.airplane then
    say o .airplane .none .neutral ("移动网络已关", "Airplane")
      ("飞行模式开着，去管理网页关掉", "Turn off airplane mode in the web admin")
  else if i.limited then
    say o .sos .none .bad ("只能紧急呼叫", "SOS only")
      (if i.roaming = 1 then
        ("没注册上：卡要开漫游，或换当地卡",
          "Ask your carrier to enable roaming, or use a local SIM")
      else
        ("没注册上：欠费、停机，或这里没这家的网",
          "Check your balance or line status; this carrier may have no coverage here"))
  else if i.bars ≤ 0 ∨ i.rat = .none then
    say { o with rat := "无服务", ratEn := "No svc" } .nosvc .none .bad ("无服务", "No service")
      (if pin.isSome then
        ("正在搜网；制式被限定，去「蜂窝」改回自动",
          "Searching; set network mode to Auto in Cellular")
      else ("正在搜网，换个位置试试", "Searching; try another spot"))
  else if ¬ i.dataUp then
    say o .nodata .none .bad ("没连上网", "Offline")
      (if i.dataSw = .off then
        ("移动数据关着：去「蜂窝」打开", "Turn on mobile data in Cellular")
      else if i.roaming = 1 ∧ i.roamSw = .off then
        ("数据漫游关着：去「蜂窝」打开，卡也要开通",
          "Turn on data roaming in Cellular; your plan must allow it too")
      else if i.roaming = 1 ∧ i.roamSw = .on then
        ("正在拨号，换网后要半分钟左右；一直不通多半是卡在这家网络没开漫游",
          "Connecting, ~30 s after a network change; if stuck, your plan may not roam here")
      else if i.roaming = 1 then
        ("数据没拨上：看「蜂窝」里数据漫游开没开，卡也要开通",
          "Check data roaming in Cellular; your plan must allow it too")
      else
        ("数据没拨上：查流量开关、APN 或欠费", "Check mobile data, APN, or your balance"))
  else if stalled i then
    say o .stall .none .bad ("连上了但不通", "No traffic")
      ("有信号、已拨号，但 30 秒没收到任何数据",
        "Signal and data are up, but nothing came back for 30 s")
  else if i.hot then
    say o .hot .none .warn ("慢：过热限速", "Slow")
      ("机身太热，固件在限速，凉下来自动恢复" ++ i.roamNote,
        "Too hot; speed limited until it cools" ++ i.roamEn)
  else if i.capped then
    let mbps := int (asI32 (rationals.toInt (i.ambrDl + 1 / 2)))
    say o .limit .limit .warn ("慢：限速", "Slow")
      ("运营商限到 " ++ mbps ++ " Mbps，换位置没用",
        "Carrier caps speed at " ++ mbps ++ " Mbps; moving won't help")
  else if i.st = 0 then
    say o .weak .weak .warn ("慢：信号弱", "Slow")
      (if i.rsrpValid then
        ("RSRP " ++ int i.rsrp ++ "：离基站远，靠窗通常好些" ++ i.roamNote,
          "Weak signal, RSRP " ++ int i.rsrp ++ " dBm; try near a window" ++ i.roamEn)
      else
        ("离基站远，靠窗通常好些" ++ i.roamNote, "Weak signal; try near a window" ++ i.roamEn))
  else if i.nq = 0 then
    let sinr := rationals.fmt1 i.sinr
    say o .noise .noise .warn ("慢：干扰大", "Slow")
      ("SINR " ++ sinr ++ "：杂波多，挪个位置或换个朝向" ++ i.roamNote,
        "Noisy signal, SINR " ++ sinr ++ " dB; move or rotate the device" ++ i.roamEn)
  else if i.crowd then
    say o .crowd .crowd .warn ("慢：疑似拥挤", "Slow")
      ("RSRQ " ++ int i.rsrq ++ "：人多抢网，换位置帮助不大",
        "Cell busy, RSRQ " ++ int i.rsrq ++ " dB; moving won't help much")
  else if i.rat = .g2 then
    say o .only2g .none .warn ("只有 2G", "2G only")
      (if pin.isSome then
        ("制式被限定只用 2G，去「蜂窝」改回",
          "Network mode is 2G only; set it to Auto in Cellular")
      else ("上网会非常慢，附近可能没有 4G/5G", "Very slow; probably no 4G/5G nearby"))
  else if i.rat = .g3 then
    say o .only3g .none .warn ("只有 3G", "3G only")
      (if pin.isSome then
        ("制式被限定只用 3G，去「蜂窝」改回",
          "Network mode is 3G only; set it to Auto in Cellular")
      else ("能上网但较慢，附近可能没有 4G/5G", "Online but slow; probably no 4G/5G nearby"))
  else if i.narrow then
    say o .narrow .narrow .warn ("慢：载波窄", "Slow")
      ("这里只给了 1 条 " ++ int i.mhz ++ " MHz", "Only one " ++ int i.mhz ++ " MHz carrier here")
  else
    say o .ok .none .ok ("顺畅", "All good")
      (if pin.isSome ∧ i.rat = .g4 then
        ("制式限定只用 4G，去「蜂窝」改回",
          "Network mode is 4G only; set it to Auto in Cellular")
      else ("", ""))

inductive ScreenOpKind where
  /-- In progress. -/
  | live
  /-- Undone in vain. -/
  | alert
  /-- A result that stays. -/
  | sticky
deriving DecidableEq, Repr

structure ScreenOp where
  kind : ScreenOpKind
  head : String × String
  hint : String × String
deriving DecidableEq, Repr

/-- An operation over the verdict. -/
def withOp (o : Story) (op : Option ScreenOp) : Story :=
  match op with
  | none => o
  | some op =>
      if o.state = .nosim ∨ o.state = .airplane then o
      else
        match op.kind with
        | .sticky =>
            let enBase := if o.hintEn = "" then o.hint else o.hintEn
            { o with
              hint := if o.hint = "" then cstr op.hint.1 128 else
                cstr (o.hint ++ "；" ++ op.hint.1) 128
              hintEn := if enBase = "" then op.hint.2 else enBase ++ "; " ++ op.hint.2 }.finishEn
        | .live | .alert =>
            { o with
              state := if op.kind = ScreenOpKind.live then .changing else .revertFail
              tone := if op.kind = ScreenOpKind.live then .neutral else .bad
              cause := .none
              headline := cstr op.head.1 32
              headlineEn := op.head.2
              hint := cstr op.hint.1 128
              hintEn := op.hint.2 }.finishEn

/-! ### What a verdict says is what the indicators show -/

section Texts

theorem fits_fits (n : Nat) (s : List Char) : fits n (fits n s) = fits n s := by
  induction s generalizing n with
  | nil => rfl
  | cons c s ih =>
    rw [fits]
    split
    · rw [fits, if_pos ‹_›, ih]
    · rfl

theorem cstr_cstr (s : String) (cap : Nat) : cstr (cstr s cap) cap = cstr s cap := by
  rw [cstr, cstr, String.toList_ofList, fits_fits]

theorem enFor_enFor (zh en : String) (cap : Nat) :
    enFor zh (enFor zh en cap) cap = enFor zh en cap := by
  rw [enFor, enFor]
  split
  · rfl
  · exact cstr_cstr en cap

end Texts

/-- Everything but the verdict and its hint. -/
structure Shown where
  rat : String × String
  link : String × String
  sig : String × String × Tone
  noise : String × String × Tone
  load : String × String
  limit : String × String
deriving DecidableEq

def Story.shown (o : Story) : Shown :=
  { rat := (o.rat, o.ratEn)
    link := (o.link, o.linkEn)
    sig := (o.sig, o.sigEn, o.sigTone)
    noise := (o.noise, o.noiseEn, o.noiseTone)
    load := (o.load, o.loadEn)
    limit := (o.limit, o.limitEn) }

/-- Its English is the one that is shown. -/
def Story.Finished (o : Story) : Prop := o.finishEn.shown = o.shown

theorem finishEn_finished (o : Story) : o.finishEn.Finished := by
  simp only [Story.Finished, Story.finishEn, Story.shown, enFor_enFor]

/-- The readings behind a verdict. -/
inductive Reaches (i : NetIn) : State → Prop
  | limit (h : i.capped = true) : Reaches i .limit
  | weak (h : i.st = 0) : Reaches i .weak
  | noise (hst : 0 < i.st) (h : i.nq = 0) : Reaches i .noise
  | crowd (hst : 0 < i.st) (h : i.crowd = true) : Reaches i .crowd
  | narrow (h : i.narrow = true) : Reaches i .narrow
  | ok (hup : i.dataUp = true) (hcap : i.capped = false) (hst : 0 < i.st) (hnq : i.nq ≠ 0)
      (hcrowd : i.crowd = false) : Reaches i .ok
  /-- The others say nothing about the signal. -/
  | other {s : State}
      (h : s ∉ [State.limit, State.weak, State.noise, State.crowd, State.narrow, State.ok]) :
      Reaches i s

/-- The signal, the noise, the load and the limit of a story are the readings'. -/
structure Verdict (i : NetIn) (o : Story) : Prop where
  reaches : Reaches i o.state
  sig : o.sig = i.indicators.sig
  noise : o.noise = i.indicators.noise
  load : o.load = i.indicators.load
  limit : o.limit = i.indicators.limit
  finished : o.Finished

theorem verdict_say {i : NetIn} {s : State} (h : Reaches i s) (cause : Cause) (tone : Tone)
    (head hint : String × String) : Verdict i (say i.indicators s cause tone head hint) :=
  ⟨h, rfl, rfl, rfl, rfl, finishEn_finished _⟩

theorem st_pos {i : NetIn} (hbars : ¬(i.bars ≤ 0 ∨ i.rat = .none)) (h : ¬i.st = 0) : 0 < i.st := by
  have hpos : ¬i.bars ≤ 0 := fun hle => hbars (.inl hle)
  rw [NetIn.st, barsTier, if_neg hpos] at h ⊢
  split at h
  · rw [if_pos ‹_›]
    decide
  · rw [if_neg ‹_›]
    split at h
    · rw [if_pos ‹_›]
      decide
    · exact absurd rfl h

theorem verdict_ite {i : NetIn} {c : Prop} [Decidable c] {o o' : Story} (h : c → Verdict i o)
    (h' : ¬c → Verdict i o') : Verdict i (if c then o else o') := by
  by_cases hc : c
  · rw [if_pos hc]
    exact h hc
  · rw [if_neg hc]
    exact h' hc

theorem story_verdict (i : NetIn) : Verdict i (story i) := by
  unfold story
  refine verdict_ite (fun _ => verdict_say (.other (by decide)) ..) fun _ => ?_
  refine verdict_ite (fun _ => verdict_say (.other (by decide)) ..) fun _ => ?_
  refine verdict_ite (fun _ => verdict_say (.other (by decide)) ..) fun _ => ?_
  refine verdict_ite (fun _ => ⟨Reaches.other (s := .nosvc) (by decide), rfl, rfl, rfl, rfl,
    finishEn_finished _⟩) fun hbars => ?_
  refine verdict_ite (fun _ => verdict_say (.other (by decide)) ..) fun hup => ?_
  refine verdict_ite (fun _ => verdict_say (.other (by decide)) ..) fun _ => ?_
  refine verdict_ite (fun _ => verdict_say (.other (by decide)) ..) fun _ => ?_
  refine verdict_ite (fun hcap => verdict_say (.limit hcap) ..) fun hcap => ?_
  refine verdict_ite (fun hst => verdict_say (.weak hst) ..) fun hst => ?_
  have hpos := st_pos hbars hst
  refine verdict_ite (fun hnq => verdict_say (.noise hpos hnq) ..) fun hnq => ?_
  refine verdict_ite (fun hcrowd => verdict_say (.crowd hpos hcrowd) ..) fun hcrowd => ?_
  refine verdict_ite (fun _ => verdict_say (.other (by decide)) ..) fun _ => ?_
  refine verdict_ite (fun _ => verdict_say (.other (by decide)) ..) fun _ => ?_
  refine verdict_ite (fun hnarrow => verdict_say (.narrow hnarrow) ..) fun _ => ?_
  have hup : i.dataUp = true := Decidable.not_not.1 hup
  exact verdict_say (.ok hup (Bool.eq_false_iff.2 hcap) hpos hnq (Bool.eq_false_iff.2 hcrowd)) ..

/-! ### The indicators -/

section Indicators

variable {i : NetIn}

theorem sig_weak_iff : i.indicators.sig = "弱" ↔ i.st = 0 := by
  simp only [NetIn.indicators]
  split
  · exact iff_of_false (by decide) (by omega)
  split
  · exact iff_of_true rfl ‹_›
  split
  · exact iff_of_false (by decide) ‹_›
  · exact iff_of_false (by decide) ‹_›

theorem noise_high_iff : i.indicators.noise = "大" ↔ i.nq = 0 := by
  simp only [NetIn.indicators]
  split
  · exact iff_of_false (by decide) (by omega)
  split
  · exact iff_of_true rfl ‹_›
  split
  · exact iff_of_false (by decide) ‹_›
  · exact iff_of_false (by decide) ‹_›

theorem crowd_loadKnown (h : i.crowd = true) : i.loadKnown = true := by
  rw [NetIn.crowd, Bool.and_eq_true] at h
  exact h.1

theorem load_high_iff : i.indicators.load = "高" ↔ i.crowd = true := by
  simp only [NetIn.indicators]
  split
  · split
    · exact iff_of_true rfl ‹_›
    · exact iff_of_false (by decide) ‹_›
  · exact iff_of_false (by decide) fun h => ‹¬_› (crowd_loadKnown h)

/-- The load is shown only over a signal that is not weak. -/
theorem load_shown (h : i.indicators.load ≠ "") : 0 < i.st := by
  simp only [NetIn.indicators] at h
  split at h
  · rename_i hknown
    simp only [NetIn.loadKnown, Bool.and_eq_true, decide_eq_true_eq] at hknown
    omega
  · exact absurd rfl h

theorem limit_capped_iff : i.indicators.limit = "有" ↔ i.capped = true := by
  simp only [NetIn.indicators]
  split
  · rename_i hle
    refine iff_of_false (by decide) fun h => ?_
    rw [NetIn.capped, Bool.and_eq_true, decide_eq_true_eq] at h
    exact absurd h.1 (not_lt.2 hle)
  split
  · exact iff_of_true rfl ‹_›
  · exact iff_of_false (by decide) ‹_›

end Indicators

/-- The verdict does not contradict what is shown beside it. -/
structure Agrees (i : NetIn) (o : Story) : Prop where
  weak : o.state = .weak → o.sig = "弱"
  noise : o.state = .noise → o.noise = "大" ∧ o.sig ≠ "弱"
  crowd : o.state = .crowd → o.load = "高" ∧ o.sig ≠ "弱"
  limit : o.state = .limit → o.limit = "有"
  narrow : o.state = .narrow → i.nActive = 1 ∧ 0 < i.mhz ∧ i.mhz ≤ 20
  ok : o.state = .ok →
    i.dataUp = true ∧ o.sig ≠ "弱" ∧ o.noise ≠ "大" ∧ o.load ≠ "高" ∧ o.limit ≠ "有"
  load : o.load ≠ "" → o.sig ≠ "弱"

theorem Verdict.agrees {i : NetIn} {o : Story} (h : Verdict i o) : Agrees i o := by
  have hsig : 0 < i.st → o.sig ≠ "弱" := by
    intro hst hweak
    rw [h.sig, sig_weak_iff] at hweak
    omega
  have hreaches := h.reaches
  constructor
  · intro hs
    rw [hs] at hreaches
    cases hreaches with
    | weak hst => exact h.sig.trans (sig_weak_iff.2 hst)
    | other hother => exact absurd (by decide) hother
  · intro hs
    rw [hs] at hreaches
    cases hreaches with
    | noise hst hnq => exact ⟨h.noise.trans (noise_high_iff.2 hnq), hsig hst⟩
    | other hother => exact absurd (by decide) hother
  · intro hs
    rw [hs] at hreaches
    cases hreaches with
    | crowd hst hcrowd => exact ⟨h.load.trans (load_high_iff.2 hcrowd), hsig hst⟩
    | other hother => exact absurd (by decide) hother
  · intro hs
    rw [hs] at hreaches
    cases hreaches with
    | limit hcap => exact h.limit.trans (limit_capped_iff.2 hcap)
    | other hother => exact absurd (by decide) hother
  · intro hs
    rw [hs] at hreaches
    cases hreaches with
    | narrow hnarrow =>
      simp only [NetIn.narrow, Bool.and_eq_true, decide_eq_true_eq] at hnarrow
      exact ⟨hnarrow.1.1.1, hnarrow.1.1.2, hnarrow.1.2⟩
    | other hother => exact absurd (by decide) hother
  · intro hs
    rw [hs] at hreaches
    cases hreaches with
    | ok hup hcap hst hnq hcrowd =>
      refine ⟨hup, hsig hst, fun hnoise => ?_, fun hload => ?_, fun hlimit => ?_⟩
      · exact hnq (noise_high_iff.1 (h.noise.symm.trans hnoise))
      · exact absurd (load_high_iff.1 (h.load.symm.trans hload)) (Bool.eq_false_iff.1 hcrowd)
      · exact absurd (limit_capped_iff.1 (h.limit.symm.trans hlimit)) (Bool.eq_false_iff.1 hcap)
    | other hother => exact absurd (by decide) hother
  · intro hload
    rw [h.load] at hload
    exact hsig (load_shown hload)

/-! ### An operation over the verdict -/

/-- What an operation may make of a story. -/
inductive Overlaid (o : Story) : Story → Prop
  | same : Overlaid o o
  | sticky {o' : Story} (hstate : o'.state = o.state) (hshown : o'.shown = o.finishEn.shown) :
      Overlaid o o'
  | covered {o' : Story} (hstate : o'.state = .changing ∨ o'.state = .revertFail)
      (hshown : o'.shown = o.finishEn.shown) : Overlaid o o'

theorem withOp_overlaid (o : Story) (op : Option ScreenOp) : Overlaid o (withOp o op) := by
  cases op with
  | none => exact .same
  | some op =>
    obtain ⟨kind, head, hint⟩ := op
    rw [withOp]
    split
    · exact .same
    · cases kind with
      | live => exact .covered (.inl rfl) rfl
      | alert => exact .covered (.inr rfl) rfl
      | sticky => exact .sticky rfl rfl

theorem Overlaid.shown {o o' : Story} (h : Overlaid o o') (hfin : o.Finished) :
    o'.shown = o.shown := by
  cases h with
  | same => rfl
  | sticky _ hshown => exact hshown.trans hfin
  | covered _ hshown => exact hshown.trans hfin

theorem Overlaid.agrees {i : NetIn} {o o' : Story} (h : Overlaid o o') (hfin : o.Finished)
    (ho : Agrees i o) : Agrees i o' := by
  have hshown := h.shown hfin
  have hsig : o'.sig = o.sig := congrArg (fun s : Shown => s.sig.1) hshown
  have hnoise : o'.noise = o.noise := congrArg (fun s : Shown => s.noise.1) hshown
  have hload : o'.load = o.load := congrArg (fun s : Shown => s.load.1) hshown
  have hlimit : o'.limit = o.limit := congrArg (fun s : Shown => s.limit.1) hshown
  -- the state stays, or is one that says nothing about the signal
  have hstate : ∀ s : State, s ≠ .changing → s ≠ .revertFail → o'.state = s → o.state = s := by
    intro s hchanging hrevert hs
    cases h with
    | same => exact hs
    | sticky hkeep => exact hkeep.symm.trans hs
    | covered hcover =>
      rcases hcover with hcover | hcover
      · exact absurd (hs.symm.trans hcover) hchanging
      · exact absurd (hs.symm.trans hcover) hrevert
  constructor
  · intro hs
    rw [hsig]
    exact ho.weak (hstate _ (by decide) (by decide) hs)
  · intro hs
    rw [hsig, hnoise]
    exact ho.noise (hstate _ (by decide) (by decide) hs)
  · intro hs
    rw [hsig, hload]
    exact ho.crowd (hstate _ (by decide) (by decide) hs)
  · intro hs
    rw [hlimit]
    exact ho.limit (hstate _ (by decide) (by decide) hs)
  · intro hs
    exact ho.narrow (hstate _ (by decide) (by decide) hs)
  · intro hs
    rw [hsig, hnoise, hload, hlimit]
    exact ho.ok (hstate _ (by decide) (by decide) hs)
  · rw [hsig, hload]
    exact ho.load

/-- **The verdict on the home page never contradicts its indicators**, with an operation
    over it or without; the operation leaves them as they are, and a missing SIM and the
    airplane mode as well. -/
theorem verdict_agrees (i : NetIn) (op : Option ScreenOp) :
    Agrees i (story i) ∧ Agrees i (withOp (story i) op) ∧
      (withOp (story i) op).shown = (story i).shown ∧
      ((story i).state = .nosim ∨ (story i).state = .airplane →
        withOp (story i) op = story i) := by
  have hverdict := story_verdict i
  have hover := withOp_overlaid (story i) op
  refine ⟨hverdict.agrees, hover.agrees hverdict.finished hverdict.agrees,
    hover.shown hverdict.finished, fun hkeep => ?_⟩
  cases op with
  | none => rfl
  | some op => exact if_pos hkeep

end Screen

end Datad
