/-
  Datad/Server/Served.lean
  ========================
  **The actions against a device that keeps what it is told.**

  `Actions.lean` has the actions as they ask, one request after the other; `WifiApply.lean`,
  `Sms/ListAfter.lean` and `Cellular.lean` have three of them as functions of the device.
  Here the former are run against the device of the latter, and do the same.
-/
import Datad.Server.Refused

namespace Datad

namespace Actions

open Interaction Interaction.Program Ubus

variable {σ : Type} {env : (q : Request) → σ → q.Answer × σ}

/-! ### `cellular.set` -/

theorem answered_ubus (env : (q : Request) → q.Answer) (service method : String) (args : Value) :
    (answered env (ubus service method args)).1.map Sigma.fst = [.call ⟨service, method, args⟩] ∧
      (answered env (ubus service method args)).2 =
        (env (.call ⟨service, method, args⟩)).mapError CallError.text := by
  rw [ubus, answered_bind]
  have hcall : (answered env (rawCall service method args)).2 =
      env (.call ⟨service, method, args⟩) := rfl
  rw [hcall]
  cases env (.call ⟨service, method, args⟩) with
  | ok v => exact ⟨rfl, rfl⟩
  | error e => exact ⟨rfl, rfl⟩

/-- **`cellular.set` as it asks**: the same answer after the same calls. -/
theorem cellularSet_answered (env : (q : Request) → q.Answer) (params : Value) :
    (answered env (cellularSet params)).2 =
        (Datad.cellularSet (fun i => env (.call i)) params).1 ∧
      (answered env (cellularSet params)).1.map Sigma.fst =
        (Datad.cellularSet (fun i => env (.call i)) params).2.map .call := by
  have hread : (⟨"zwrt_data", "get_wwaniface", GET_WWANIFACE⟩ : Invocation) = getWwaniface := by
    decide
  unfold cellularSet Datad.cellularSet
  cases mapped params CELLULAR_FIELDS [] with
  | error e => exact ⟨rfl, rfl⟩
  | ok overrides =>
    cases overrides with
    | nil => exact ⟨rfl, rfl⟩
    | cons first more =>
      obtain ⟨hasked, hreply⟩ := answered_ubus env "zwrt_data" "get_wwaniface" GET_WWANIFACE
      rw [hread] at hasked hreply
      dsimp only
      rw [answered_bind, List.map_append, hasked, hreply]
      cases env (.call getWwaniface) with
      | error e => exact ⟨rfl, rfl⟩
      | ok v =>
        cases v with
        | obj current => exact ⟨rfl, rfl⟩
        | null | bool _ | num _ | str _ | arr _ => exact ⟨rfl, rfl⟩

/-! ### `wifi.apply` -/

/-- `uci` ends as `outcomes` says and works on a store, which no other request changes. -/
structure KeepsUci (env : (q : Request) → σ → q.Answer × σ) (store : σ → Wifi.Uci)
    (outcomes : Wifi.Outcomes) : Prop where
  uci : ∀ m s, ((env (.uci m) s).1, store (env (.uci m) s).2) =
    match outcomes m with
    | .ok () => (.ok (), m.run (store s))
    | .error e => (.error e, store s)
  others : ∀ q s, (∀ m, q ≠ .uci m) → store (env q s).2 = store s

section

variable {store : σ → Wifi.Uci} {outcomes : Wifi.Outcomes}

theorem KeepsUci.radioSection (h : KeepsUci env store outcomes) (b : Band) (s : σ) :
    store (against env (radioSection b) s).2 = store s := by
  refine (reads_radioSection b).frame store (fun q s hq => h.others q s ?_) s
  rintro m rfl
  cases hq

theorem KeepsUci.ubus (h : KeepsUci env store outcomes) (service method : String) (args : Value)
    (s : σ) : store (against env (ubus service method args) s).2 = store s := by
  have hothers : store (against env (rawCall service method args) s).2 = store s :=
    h.others (.call ⟨service, method, args⟩) s fun m => nofun
  rw [Actions.ubus, against_bind]
  split
  · exact hothers
  · exact hothers

end

/-- A device whose `uci` never fails; it has no other answers. -/
def storing : (q : Request) → Wifi.Uci → q.Answer × Wifi.Uci
  | .uci m, s => (.ok (), m.run s)
  | q, s => (silent q, s)

section

variable {fetch : Nat → Nat → Except String Value} {afterId limit : Nat}

/-- The pages do not change while they are listed. -/
def ServesPages (env : (q : Request) → σ → q.Answer × σ)
    (fetch : Nat → Nat → Except String Value) : Prop :=
  ∀ store page s, (against env (fetchPage store page) s).1 = fetch store page

theorem scanStore_against (h : ServesPages env fetch) (store : Nat) :
    ∀ left page prev found s,
      (against env (scanStore afterId store left page prev found) s).1 =
        (Sms.scan fetch afterId store left page prev found).result
  | 0, page, prev, found, s => by
      rw [scanStore, Sms.scan, against_ret]
      refine congrArg Except.error ?_
      simp only [String.append_assoc]
  | left + 1, page, prev, found, s => by
      rw [scanStore, Sms.scan, against_bind, h store page s]
      cases fetch store page with
      | error e => rfl
      | ok reply =>
        dsimp only
        split
        · rfl
        · split
          · rfl
          · exact scanStore_against h store left (page + 1) _ _ _

theorem scanStores_against (h : ServesPages env fetch) :
    ∀ stores found s, (against env (scanStores afterId stores found) s).1 =
      (Sms.scanAll fetch afterId stores found).result
  | [], _, _ => rfl
  | store :: stores, found, s => by
      rw [scanStores, Sms.scanAll, against_bind, scanStore_against h]
      dsimp only
      cases (Sms.scan fetch afterId store Sms.LIST_MAX_PAGES 0 none found).result with
      | error e => rfl
      | ok found => exact scanStores_against h stores found _

/-- An item keeps the id of its message. -/
theorem plainItem_id (host : Host) (key : Option Key) (item : Value) :
    (plainItem host key item).get "id" = some (.num (.int (Sms.idOf item))) := by
  rw [plainItem, Value.get_ofMembers, List.reverse_append, List.find?_append]
  have hnone : ((["date", "tag", "mem_store"].filterMap fun name =>
      (item.get name).map fun v => (name, v)).reverse.find? fun m => decide (m.1 = "id")) =
        none := by
    rw [List.find?_eq_none]
    intro m hm
    obtain ⟨name, hname, hget⟩ := List.mem_filterMap.mp (List.mem_reverse.mp hm)
    obtain ⟨v, -, rfl⟩ := Option.map_eq_some_iff.mp hget
    intro heq
    obtain rfl : name = "id" := of_decide_eq_true heq
    exact absurd hname (by decide)
  rw [hnone]
  rfl

/-- The answer of `sms.list_after`. -/
def listing (host : Host) (key : Option Key) (items : List Value) (hasMore : Bool) : Value :=
  .ofMembers [("items", .arr (items.map (plainItem host key))), ("has_more", .bool hasMore)]

/-- The ids of the items of an answer. -/
def idsOf (v : Value) : List Value :=
  (((v.get "items").bind Value.asArray).getD []).filterMap (·.get "id")

theorem idsOf_listing (host : Host) (key : Option Key) (items : List Value) (hasMore : Bool) :
    idsOf (listing host key items hasMore) = items.map fun m => .num (.int (Sms.idOf m)) := by
  have hget : (listing host key items hasMore).get "items" =
      some (.arr (items.map (plainItem host key))) := by
    rw [listing, Value.get_ofMembers]
    rfl
  rw [idsOf, hget, Option.bind_some, Value.asArray, Option.getD_some, List.filterMap_map,
    ← List.filterMap_eq_map]
  refine List.filterMap_congr fun m _ => ?_
  exact plainItem_id host key m

theorem smsListAfter_against (h : ServesPages env fetch) (host : Host) {params : Value}
    (hafter : natural params "after_id" 0 = .ok afterId)
    (hlimit : natural params "limit" LIST_LIMIT_MAX = .ok limit)
    (hrange : 0 < limit ∧ limit ≤ LIST_LIMIT_MAX) (s : σ) :
    ∃ key, (against env (smsListAfter host params) s).1 =
      match (Sms.listAfterWith fetch afterId limit).result with
      | .error e => .failed e
      | .ok (items, hasMore) => .ok (listing host key items hasMore) := by
  have hbounds : ¬(limit = 0 ∨ LIST_LIMIT_MAX < limit) := by omega
  rw [smsListAfter, hafter, hlimit]
  dsimp only
  rw [if_neg hbounds, against_bind, scanStores_against h, Sms.listAfterWith]
  generalize (against env (scanStores afterId [1, 0] []) s).2 = s₁
  refine ⟨(against env (answer .sessionKey) s₁).1, ?_⟩
  cases (Sms.scanAll fetch afterId [1, 0] []).result with
  | error e => rfl
  | ok found => rfl

/-- **What `sms.list_after` answers**: it fails exactly where a page that it asks for cannot be
    read or a store has too many messages above the id; otherwise its items are the first
    messages above the id, of both stores, by ascending id, and it says whether there are
    more. -/
theorem smsListAfter_lists (h : ServesPages env fetch) (host : Host) {params : Value}
    (hafter : natural params "after_id" 0 = .ok afterId)
    (hlimit : natural params "limit" LIST_LIMIT_MAX = .ok limit)
    (hrange : 0 < limit ∧ limit ≤ LIST_LIMIT_MAX) {nv sim : Sms.Store}
    (hnv : Sms.Serves fetch 1 nv) (hsim : Sms.Serves fetch 0 sim)
    (hapart : Sms.Apart nv.items sim.items) (s : σ) :
    ((∃ e, (against env (smsListAfter host params) s).1 = .failed e) ↔
      (∃ c ∈ (Sms.listAfterWith fetch afterId limit).calls, ∃ e, fetch c.1 c.2 = .error e) ∨
        Sms.LIST_MAX_PAGES * Sms.LIST_PAGE ≤ (nv.above afterId).length ∨
        Sms.LIST_MAX_PAGES * Sms.LIST_PAGE ≤ (sim.above afterId).length) ∧
    ((¬∃ e, (against env (smsListAfter host params) s).1 = .failed e) →
      ∃ v, (against env (smsListAfter host params) s).1 = .ok v ∧
        (∃ key, v.get "items" = some
          (.arr (((Sms.ascending afterId nv sim).take limit).map (plainItem host key)))) ∧
        idsOf v = ((Sms.ascending afterId nv sim).take limit).map
          (fun m => .num (.int (Sms.idOf m))) ∧
        v.get "has_more" =
          some (.bool (decide (limit < (Sms.ascending afterId nv sim).length)))) := by
  obtain ⟨hfails, hlists⟩ := Sms.listAfterWith_spec afterId limit hnv hsim hapart
  obtain ⟨key, hrun⟩ := smsListAfter_against h host hafter hlimit hrange s
  rw [hrun, ← hfails]
  cases hresult : (Sms.listAfterWith fetch afterId limit).result with
  | error e => exact ⟨iff_of_true ⟨e, rfl⟩ ⟨e, rfl⟩, fun hno => absurd ⟨e, rfl⟩ hno⟩
  | ok p =>
    obtain rfl := hlists p hresult
    refine ⟨iff_of_false nofun nofun, fun _ => ⟨_, rfl, ⟨key, ?_⟩, ?_, ?_⟩⟩
    · rw [listing, Value.get_ofMembers]
      rfl
    · exact idsOf_listing ..
    · rw [listing, Value.get_ofMembers]
      rfl

/-- A device with the messages of `Sms.serve`. -/
def listingDevice : (q : Request) → Unit → q.Answer × Unit
  | .call i, s =>
      (match i.args.get "mem_store", i.args.get "page" with
        | some (.num (.int store)), some (.num (.int page)) =>
            (Sms.serve store.toNat page.toNat).mapError fun _ => .skipped ""
        | _, _ => .error (.skipped i.service), s)
  | q, s => (silent q, s)

theorem listingDevice_call (i : Invocation) (s : Unit) {store page : Nat}
    (hstore : i.args.get "mem_store" = some (.num (.int store)))
    (hpage : i.args.get "page" = some (.num (.int page))) :
    (listingDevice (.call i) s).1 = (Sms.serve store page).mapError fun _ => .skipped "" := by
  simp only [listingDevice, hstore, hpage, Int.toNat_natCast]
  rfl

theorem listingDevice_serves : ServesPages listingDevice Sms.serve := by
  intro store page s
  have hstore : (listPageArgs store page).get "mem_store" = some (.num (.int store)) := by
    rw [listPageArgs, Value.get_ofMembers]
    rfl
  have hpage : (listPageArgs store page).get "page" = some (.num (.int page)) := by
    rw [listPageArgs, Value.get_ofMembers]
    rfl
  obtain ⟨v, hv⟩ : ∃ v, Sms.serve store page = .ok v := ⟨_, rfl⟩
  have hrun : (against listingDevice (rawCall "zwrt_wms" "zte_libwms_get_sms_data"
      (listPageArgs store page)) s).1 = .ok v := by
    exact (listingDevice_call ⟨_, _, listPageArgs store page⟩ s hstore hpage).trans
      (congrArg _ hv)
  rw [fetchPage, ubus, against_bind, hrun, hv]
  rfl

/-- The messages above 4, one at a time. -/
def oneAfterFour : Value := .obj [("after_id", .num (.int 4)), ("limit", .num (.int 1))]

theorem smsListAfter_lists_one : ∃ v,
    (against listingDevice (smsListAfter stockHost oneAfterFour) ()).1 = .ok v ∧
      idsOf v = [.num (.int 7)] ∧
      idsOf v = ((Sms.ascending 4 Sms.nvStore Sms.simStore).take 1).map
        (fun m => .num (.int (Sms.idOf m))) := by
  have hrun : (against listingDevice (smsListAfter stockHost oneAfterFour) ()).1 =
      .ok (listing stockHost none [Sms.message (.str " 7 ")] true) := by
    decide +kernel
  have hnv : Sms.Serves Sms.serve 1 Sms.nvStore := fun page reply hreply => by
    rw [← Except.ok.inj hreply]
    rfl
  have hsim : Sms.Serves Sms.serve 0 Sms.simStore := fun page reply hreply => by
    rw [← Except.ok.inj hreply]
    rfl
  have hapart : Sms.Apart Sms.nvStore.items Sms.simStore.items := by
    unfold Sms.Apart
    decide +kernel
  have hafter : natural oneAfterFour "after_id" 0 = .ok 4 := rfl
  have hlimit : natural oneAfterFour "limit" LIST_LIMIT_MAX = .ok 1 := rfl
  obtain ⟨-, hlists⟩ := smsListAfter_lists listingDevice_serves stockHost hafter hlimit (by decide)
    hnv hsim hapart ()
  rw [hrun] at hlists ⊢
  obtain ⟨v, hv, -, hids, -⟩ := hlists nofun
  refine ⟨v, hv, ?_, hids⟩
  rw [← Outcome.ok.inj hv, idsOf_listing]
  decide +kernel

end

end Actions

end Datad
