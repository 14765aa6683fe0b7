import Switchboard.Proofs.Web.Requests
/-!
# Tenants apart

A request that names a tenant writes rows of that tenant only, and what it has the telephone provider do is about calls of
that tenant (`request_reaches_only`).  There are two exceptions, and a request reaches nobody else.  A call that comes in is
taken for the row that is found under its id, whoever's it is.  And a call id that leads to another one, as that of a segment
does, leads the work on a tenant's call to the rows of the other, so whoever shares a call with the tenant is reached too.
-/
namespace Switchboard

open Store (sameId)
open Web (Event Route)

namespace Web

/-- Whether a route takes a call for one of the tenant that it names. -/
def Route.takesCall : Route → Bool
  | hook h => h.takesCall
  | _ => false

/-- The id of the call that a request is about. -/
def Request.sid (r : Request) : String := Event.sid ⟨r.parameters, r.form⟩

end Web

namespace CallRow

/-- Whether a call with an id is taken for the call of a row: the id is that of the row or its root, or leads to its root. -/
def HasCall (row : CallRow) (sid : String) : Prop :=
  row.segment.callSid = sid ∨ row.segment.rootSid = sid ∨ row.segment.rootSid = Naming.root sid

/-- Whether the call of a row is that of another row, or the one that it leads to. -/
def LeadsTo (row other : CallRow) : Prop :=
  other.segment.rootSid = row.segment.rootSid ∨ other.segment.rootSid = Naming.root row.segment.rootSid

instance (row other : CallRow) : Decidable (row.LeadsTo other) := inferInstanceAs (Decidable (_ ∨ _))

end CallRow

/-- The tenants that a request may reach: the one that it names, whoever has the call that it takes, and whoever has a call
that one of theirs leads to. -/
inductive Web.Request.Reaches (r : Web.Request) (route : Route) (tenant : String) (db : Store) : String → Prop where
  | named {id : String} (hid : sameId id tenant = true) : Reaches r route tenant db id
  | taken {row : CallRow} {id : String} (htakes : route.takesCall = true) (hrow : row ∈ db.calls) (hcall : row.HasCall r.sid)
      (hid : sameId id row.segment.tenantId = true) : Reaches r route tenant db id
  | shared {row other : CallRow} {id : String} (hrow : row ∈ db.calls) (hreached : Reaches r route tenant db row.segment.tenantId)
      (hother : other ∈ db.calls) (hleads : row.LeadsTo other) (hid : sameId id other.segment.tenantId = true) :
      Reaches r route tenant db id

namespace Web.Request.Reaches

variable {r : Web.Request} {route : Route} {tenant : String} {db : Store} {id : String}

theorem of_sameId {other : String} (hsame : sameId other id = true) (h : Reaches r route tenant db id) :
    Reaches r route tenant db other := by
  cases h with
  | named hid => exact .named (Store.sameId_trans hsame hid)
  | taken htakes hrow hcall hid => exact .taken htakes hrow hcall (Store.sameId_trans hsame hid)
  | shared hrow hreached hother hleads hid => exact .shared hrow hreached hother hleads (Store.sameId_trans hsame hid)

/-- **A tenant whose calls are its own is alone**: nobody else is reached, if the call that is taken is nobody else's. -/
theorem of_own (hown : ∀ row ∈ db.calls, sameId row.segment.tenantId tenant = true → ∀ other ∈ db.calls,
      row.LeadsTo other → sameId other.segment.tenantId tenant = true)
    (hfree : route.takesCall = true → ∀ row ∈ db.calls, row.HasCall r.sid → sameId row.segment.tenantId tenant = true)
    (h : Reaches r route tenant db id) : sameId id tenant = true := by
  -- By induction on the way to the tenant: every call on it is one of the tenant that was named.
  induction h with
  | named hid => exact hid
  | taken htakes hrow hcall hid => exact Store.sameId_trans hid (hfree htakes _ hrow hcall)
  | shared hrow _ hother hleads hid ih => exact Store.sameId_trans hid (hown _ hrow ih _ hother hleads)

end Web.Request.Reaches

open scoped Classical in
/-- The scope of a request: the rows of the tenants that it may reach, and the legs that ring for them. -/
noncomputable def Scope.ofRequest (r : Web.Request) (route : Route) (tenant : String) (st : State) : Scope where
  mine id := decide (r.Reaches route tenant st.store id)
  legs leg := ∃ row ∈ st.store.calls, r.Reaches route tenant st.store row.segment.tenantId ∧
    ∃ s, row.read = .ok s ∧ leg ∈ s.scratch.pendingLegs
  crowded := False
  mine_of_same h hmine := decide_eq_true (Web.Request.Reaches.of_sameId h (of_decide_eq_true hmine))

section Request

variable {r : Web.Request} {route : Route} {tenant : String} {st : State}

theorem Scope.mine_ofRequest {id : String} :
    (ofRequest r route tenant st).mine id = true ↔ r.Reaches route tenant st.store id := by
  simp [ofRequest]

theorem Scope.ofRequest_sound (hst : st.store.Identified) : (ofRequest r route tenant st).Sound st where
  identified := hst
  closed row hrow hmine := by
    have hreached {other : CallRow} (hother : other ∈ st.store.calls) (hleads : row.LeadsTo other) :
        (ofRequest r route tenant st).mine other.segment.tenantId = true :=
      mine_ofRequest.mpr (.shared hrow (mine_ofRequest.mp hmine) hother hleads (decide_eq_true rfl))
    exact ⟨fun other hother hroot => hreached hother (.inl hroot), fun other hother hroot => hreached hother (.inr hroot)⟩
  legs row hrow hmine s hs _ hleg := .inl ⟨row, hrow, mine_ofRequest.mp hmine, s, hs, hleg⟩

theorem Scope.ofRequest_keeps (hroute : Route.find r.method r.path = .ok route) (hnamed : route.tenant? = some tenant) :
    (ofRequest r route tenant st).Keeps (Web.serve r) st fun _ _ => True := by
  refine Keeps.serve r (fun found hfound id hid => ?_) fun h hfound htakes => ?_
  · cases hroute.symm.trans hfound
    rw [hnamed, Option.some.injEq, or_iff_left (fun h => nomatch h)] at hid
    subst hid
    exact mine_ofRequest.mpr (.named (decide_eq_true rfl))
  · cases hroute.symm.trans hfound
    have hreached {row : CallRow} (hrow : row ∈ st.store.calls) (hcall : row.HasCall r.sid) :
        (ofRequest r (.hook h) tenant st).mine row.segment.tenantId = true :=
      mine_ofRequest.mpr (.taken htakes hrow hcall (decide_eq_true rfl))
    exact ⟨fun _ hrow hsid => hreached hrow (.inl hsid), fun _ hrow hroot => hreached hrow (.inr (.inl hroot)),
      fun _ hrow hroot => hreached hrow (.inr (.inr hroot))⟩

/-- **A request reaches the tenant that it names** and, where it takes a call or calls are shared, whoever has these; nobody
else.  The calls, flows and lines of others are as they were, and every leg that was placed, redirected or ended is one of a
call of those that were reached. -/
theorem request_reaches_only (hst : st.store.Identified) (hroute : Route.find r.method r.path = .ok route)
    (hnamed : route.tenant? = some tenant) {others : String → Bool}
    (hothers : ∀ id, others id = true → ¬r.Reaches route tenant st.store id) :
    let st' := ((Web.serve r).run st).2
    (st'.store.calls.filter fun row => others row.segment.tenantId) =
        st.store.calls.filter (fun row => others row.segment.tenantId) ∧
      (st'.store.flows.filter fun f => others f.tenantId) = st.store.flows.filter (fun f => others f.tenantId) ∧
      (st'.store.lines.filter fun l => others l.tenantId) = st.store.lines.filter (fun l => others l.tenantId) ∧
      ∃ given, st'.orders = st.orders ++ given ∧ ∀ o ∈ given, (Scope.ofRequest r route tenant st).Allows st' o := by
  intro st'
  have hsub {α : Type} {l l' : List α} {f : α → String}
      (h : (l'.filter fun a => !(Scope.ofRequest r route tenant st).mine (f a)) =
        l.filter fun a => !(Scope.ofRequest r route tenant st).mine (f a)) :
      (l'.filter fun a => others (f a)) = l.filter fun a => others (f a) := by
    have hof (l : List α) : (l.filter fun a => others (f a)) =
        (l.filter fun a => !(Scope.ofRequest r route tenant st).mine (f a)).filter fun a => others (f a) := by
      rw [List.filter_filter]
      refine List.filter_congr fun a _ => ?_
      cases ha : others (f a) with
      | false => rfl
      | true => simpa using fun hmine => hothers _ ha (Scope.mine_ofRequest.mp hmine)
    rw [hof l', h, ← hof l]
  have hkeeps : (Scope.ofRequest r route tenant st).Keeps (Web.serve r) st _ := Scope.ofRequest_keeps hroute hnamed
  obtain ⟨-, hev⟩ := hkeeps.step_run (Scope.ofRequest_sound hst)
  exact ⟨hsub hev.calls, hsub hev.flows, hsub hev.lines, hev.orders⟩

end Request

/-- The caller of one tenant joins, and the call of another stays as it is. -/
theorem call_of_another_tenant_stays :
    let target : DialTarget := ⟨.phone, "+15550100", "+15550100", none⟩
    let waiting := (Segment.opened "T" "CA1" "CA1" 0 "inbound" .ringing).run [.start Resume.none [target] none 30 true]
    let other := CallRow.own { Segment.opened "U" "CA2" "CA2" 0 "inbound" .ringing with id := Store.idAfter 1 }
    let calls := [CallRow.own { waiting with id := Store.idAfter 0 }, other]
    let st := { State.holding [] with
      store := { Store.empty with calls, counted := 2 }
      settings := { (State.holding []).settings with authToken := "secret" } }
    let joins : Web.Request := ⟨.post, "/voice/conference/T/CA1/0", "seq=1",
      [("host", "localhost"), ("content-type", "application/x-www-form-urlencoded")],
      "CallSid=CA1&StatusCallbackEvent=participant-join"⟩
    let route : Route := .hook (.conference "T" "CA1" "0")
    let st' := ((Web.serve joins).run st).2
    other ∈ st'.store.calls ∧ st'.orders.length = 1 ∧
      ∀ o ∈ st'.orders, (Scope.ofRequest joins route "T" st).Allows st' o := by
  intro target waiting other calls st joins route st'
  have hst : st.store.Identified := by
    have hfirst : Store.empty.insertCall (CallRow.own waiting) = .ok (_, _) := rfl
    exact (Store.identified_empty.insertCall hfirst).insertCall
      (r := CallRow.own (Segment.opened "U" "CA2" "CA2" 0 "inbound" .ringing)) rfl
  have hothers (id : String) (hid : sameId id "U" = true) : ¬joins.Reaches route "T" st.store id := fun hreached => by
    have hsame := Web.Request.Reaches.of_own (by decide +kernel) (fun htakes => absurd htakes (by decide)) hreached
    exact absurd ((of_decide_eq_true hid).symm.trans (of_decide_eq_true hsame)) (by decide)
  have hroute : Route.find .post "/voice/conference/T/CA1/0" = .ok (.hook (.conference "T" "CA1" "0")) := rfl
  obtain ⟨hcalls, -, -, given, hgiven, hallowed⟩ := request_reaches_only hst hroute rfl hothers
  have hother : other ∈ st.store.calls.filter fun row => sameId row.segment.tenantId "U" :=
    List.mem_filter.mpr ⟨List.mem_cons_of_mem _ (List.mem_singleton_self _), by decide⟩
  have horders : st'.orders = given := hgiven
  refine ⟨(List.mem_filter.mp (hcalls ▸ hother)).1, by decide +kernel, ?_⟩
  rw [horders]
  exact hallowed

end Switchboard
