import Switchboard.Proofs.Store.Redelivery
import Switchboard.Proofs.Web.Lasting
/-!
# Callbacks that are served again

A callback that was served once, beside whatever else, is spent from then on (`Notice.upholds_serve`); serving one that is
spent changes nothing (`Notice.idles`).
-/
namespace Switchboard

open Segment (Notice)
open Store (CallRow.overwrite)
open Relation (ReflTransGen)

namespace Segment.Notice

open Manner (Makes)

variable {st : State} {sid : String} {number seq : Int}

/-- Serves a callback that carries the number of an attempt. -/
def serve (sid : String) (number seq : Int) : Notice → Work (Option Decision)
  | agentJoins leg => do
    Work.agentAnswered sid number leg (some seq)
    return none
  | legEnds leg status => Work.legEnded sid number leg status (some seq)
  | dialEnds => Work.claimAfterDial sid number (some seq)

/-- **A callback that was served is spent**, whatever others do at its pauses. -/
theorem upholds_serve (c : Notice) (hst : st.Showing sid number fun s => seq ≤ s.scratch.attemptSeq) :
    (c.serve sid number seq).Upholds (State.amidst fun _ _ => True)
      (fun r st' => ∀ d, r = .ok d → st'.Showing sid number (c.Spent seq)) st := by
  have hP : CallRow.Lasting fun s => seq ≤ s.scratch.attemptSeq := CallRow.lasting_of_attemptSeq_le Int.le_trans
  have hQ := lasting_spent c seq
  have hnow {α : Type} {k : Time.Instant → Work α} {R : Except Fault α → State → Prop}
      (hk : (k st.now).Upholds (State.amidst fun _ _ => True) R st) :
      (Work.now >>= k).Upholds (State.amidst fun _ _ => True) R st :=
    Task.upholds_look.2 hk
  cases c with
  | agentJoins leg =>
    refine Task.Upholds.bind (P := fun r st' => ∀ d, r = .ok d → st'.Showing sid number ((agentJoins leg).Spent seq))
      (fun _ _ h => Task.upholds_pure.2 fun _ _ => h () rfl) (fun _ _ _ _ h => nomatch h) (hnow ?_)
    refine Work.upholds_changed (.act (.agentJoins leg (some seq) st.now)) (fun _ => rfl) hP hQ
      (fun s hs => spent_process (.agentJoins leg) st.now hs) (fun p => ?_) hst
    exact Makes.afterwards fun _ _ => Makes.endLegs (showing_moves hQ sid number) _
  | legEnds leg status =>
    dsimp only [serve]
    unfold Work.legEnded
    split
    · rename_i hgoesOn
      refine Task.upholds_pure.2 fun _ _ => hst.mono fun s hs => ?_
      rcases Int.lt_or_eq_of_le hs with hlt | heq
      · exact .inl hlt
      · exact .inr ⟨heq, fun hfinal => by rw [hfinal] at hgoesOn; cases hgoesOn⟩
    · rename_i hends
      have hfinal : status.isFinal = true := by rwa [Bool.not_eq_true', Bool.not_eq_false] at hends
      refine hnow (Work.upholds_changed (.act (.legEnds leg (some seq) st.now)) (fun _ => rfl) hP hQ (fun s hs => ?_)
        (fun p => ?_) hst)
      · have hspent := spent_process (.legEnds leg status) st.now hs
        rw [process_legEnds hfinal] at hspent
        exact hspent
      · exact (Makes.applyDecision? (showing_moves hQ sid number) _).bind fun _ _ => .pure trivial
  | dialEnds =>
    refine hnow (Work.upholds_changed (.act (.dialEnds (some seq) st.now)) (fun _ => rfl) hP hQ
      (fun s hs => spent_process .dialEnds st.now hs) (fun p => ?_) hst)
    exact (Makes.endLegs (showing_moves hQ sid number) _).bind fun _ _ => .pure trivial

/-- **A callback that is spent** changes nothing and gives no decision. -/
theorem idles {W : Watch} (c : Notice) (hreads : W.Reads sid number (c.Spent seq)) :
    W.Idles number (c.serve sid number seq) (· = none) := by
  have hdone : W.Idles number (pure () : Work Unit) fun _ => True := .pure trivial
  cases c with
  | agentJoins leg =>
    refine Watch.Idles.bind (P := fun _ => True) ((Watch.Idles.asks _).bind fun now _ => ?_) fun _ _ => .pure rfl
    refine (Watch.Idles.mutate hreads fun s hs => agentAnswered_of_spent hs now).bind fun found hfound => ?_
    obtain ⟨s, rfl⟩ := hfound
    exact hdone
  | legEnds leg status =>
    dsimp only [serve]
    unfold Work.legEnded
    split
    · exact .pure rfl
    · rename_i hends
      have hfinal : status.isFinal = true := by rwa [Bool.not_eq_true', Bool.not_eq_false] at hends
      refine (Watch.Idles.asks _).bind fun now _ => ?_
      refine (Watch.Idles.mutate hreads fun s hs => legEnded_of_spent hfinal hs now).bind fun found hfound => ?_
      obtain ⟨s, rfl⟩ := hfound
      exact hdone.bind fun _ _ => .pure rfl
  | dialEnds =>
    refine (Watch.Idles.asks _).bind fun now _ => ?_
    refine (Watch.Idles.mutate hreads fun s hs => claimAfterDial_of_spent hs now).bind fun found hfound => ?_
    obtain ⟨s, rfl⟩ := hfound
    exact hdone.bind fun _ _ => .pure rfl

end Segment.Notice

/-- **Callbacks that come again are passed over.**  Take the join of an agent, the end of a leg or the end of the caller's
dial, with the number of an attempt that was started, and let it be processed, whether the segment takes it or not.  However
the row lives on, through other callbacks, further attempts, the caller's leave or its closing: whenever the callback comes
again it leaves the segment as it is, gives no decision and hangs up nobody.  The service serves it so: once the callback
was served, beside whatever else, it may be served again behind any steps of the service, and beside any; the row and
everything else stays as it is, and no decision is given. -/
theorem redelivered_callbacks_change_nothing (c : Notice) (seq : Int) :
    (∀ (known : String → Prop) (crowded : Prop) (r r' : CallRow) (s : Segment) (now : Time.Instant), r.read = .ok s →
      seq ≤ s.scratch.attemptSeq → CallRow.Writes known crowded (Segment.processed r s c seq now) r' →
        ∃ t, r'.read = .ok t ∧ ∀ now', t.process c seq now' = (t, {})) ∧
    ∀ (sid : String) (number : Int) (st₀ st : State), st₀.store.calls = [] → ReflTransGen State.Links st₀ st →
      st.Started sid number seq →
        (c.serve sid number seq).Upholds (State.amidst fun _ _ => True)
          (fun res st₁ => ∀ d, res = .ok d → ∀ st', ReflTransGen State.Links st₁ st' →
            (c.serve sid number seq).Upholds (State.amidst fun st st' => st' = st)
              (fun res _ => res = .ok none ∨ ∃ e, res = .error e) st' ∧
            (st'.isUp = true → Store.fits number = true → (c.serve sid number seq).run st' = (.ok none, st'))) st := by
  have hlasting := Segment.lasting_spent c seq
  refine ⟨fun known crowded r r' s now hread hseq hlife => ?_, fun sid number st₀ st hnone h hstarted => ?_⟩
  · obtain ⟨u, hu, hspent⟩ := Segment.spent_of_processed (c := c) hread now hseq
    obtain ⟨t, ht, hspent'⟩ := hlasting.writes hlife hu hspent
    exact ⟨t, ht, Segment.process_of_spent hspent'⟩
  · have hst : st.Showing sid number fun s => seq ≤ s.scratch.attemptSeq :=
      ⟨State.chained_of_links h (State.chained_of_no_calls hnone), hstarted⟩
    refine Task.Upholds.mono (fun res st₁ hserved d hres st' h' => ?_) (c.upholds_serve hst)
    have hspent : st'.Showing sid number (c.Spent seq) := (hserved d hres).links h' hlasting
    refine ⟨?_, fun hup hfits => ?_⟩
    · refine Task.Upholds.mono (fun res _ hends => ?_)
        ((c.idles (Watch.showing_reads hlasting sid number)).upholds st' hspent)
      rcases hends.2 with ⟨d, hd, rfl⟩ | ⟨herror, -⟩
      · exact .inl hd
      · exact .inr herror
    · obtain ⟨s, hs, hgood⟩ := hspent.2
      obtain ⟨row, hrow, hread⟩ := hs.segmentRow hspent.1.2
      obtain ⟨d, hrun, rfl⟩ := Watch.Idles.run_alone (fun W hreads => c.idles hreads) hrow hread hgood hup hfits
      exact hrun

/-- An agent's join comes again when the caller has hung up, and when the flow of the call was asked for once more. -/
theorem join_comes_again_behind_a_replay :
    let target : DialTarget := ⟨.phone, "+15557654321", "+15557654321", none⟩
    let c : Notice := .agentJoins "CAleg1"
    let s := (Segment.opened "T" "CA1" "CA1" 0 "inbound" .ringing).run
      [.start .none [target] none 30 false, .register 1 "CAleg1" target]
    let u := (s.process c 1 0).1.revised 1
    let r' := CallRow.overwrite (u.did (.callerGone .completed 5)) (Segment.processed (.own s) s c 1 0)
    let dial : Json :=
      .arr [.obj [("id", .str "d"), ("type", .str "dial"), ("config", .obj [("destination", .str "+15557654321")])]]
    let st₀ := { State.holding [] with
      store := { Store.empty with
        flows := [⟨"F", "T", "Main", none, true, false, .ok dial, .utc 0, .utc 0⟩]
        lines := [⟨"L", "T", "+15550199", none, true, true, some "F"⟩] }
      settings := { (State.holding []).settings with authToken := "secret" } }
    let form : List (String × String) := [("host", "localhost"), ("content-type", "application/x-www-form-urlencoded")]
    let incoming : Web.Request := ⟨.post, "/voice/incoming/T/L", "", form, "CallSid=CA1"⟩
    let replay : Web.Request := ⟨.post, "/voice/flow/T/L", "step=0", form, "CallSid=CA1"⟩
    let st := ((Web.serve incoming).run st₀).2
    let st₁ := ((c.serve "CA1" 0 1).run st).2
    let st' := ((Web.serve replay).run st₁).2
    (s.scratch.attemptSeq = 1 ∧ u.status = .inProgress ∧
      ∃ t, r'.read = .ok t ∧ t.status = .completed ∧ ∀ now, t.process c 1 now = (t, {})) ∧
    (st₀.store.calls = [] ∧ ReflTransGen State.Links st₀ st ∧ st.Started "CA1" 0 1 ∧
      (Store.chainOf "CA1" st₁.store).map (fun row => row.read.toOption.map fun s => s.scratch.answeredLeg) =
        [some (some "CAleg1")] ∧
      (Store.chainOf "CA1" st'.store).map (fun row => row.read.toOption.map fun s => s.scratch.attemptSeq) = [some 2] ∧
      ReflTransGen State.Links st₁ st' ∧ (c.serve "CA1" 0 1).run st' = (.ok none, st')) := by
  intro target c s u r' dial st₀ form incoming replay st st₁ st'
  obtain ⟨hrows, hserved⟩ := redelivered_callbacks_change_nothing c 1
  refine ⟨⟨rfl, rfl, ?_⟩, ?_⟩
  · have hread : (Segment.processed (.own s) s c 1 0).read = .ok u := by
      rw [Segment.processed, if_neg (by decide +kernel)]
      rfl
    have hwrites : CallRow.Writes (fun _ => True) True (Segment.processed (.own s) s c 1 0) r' :=
      .single (.deed (.callerGone .completed 5) hread fun _ _ => trivial)
    obtain ⟨t, ht, hpassed⟩ := hrows _ _ (.own s) r' s 0 rfl (by decide) hwrites
    have hlast : r'.read = .ok ((u.did (.callerGone .completed 5)).revised 2) :=
      CallRow.read_overwrite hread (Segment.overwriting_did u _)
    cases ht.symm.trans hlast
    exact ⟨_, ht, rfl, hpassed⟩
  · have hnone : st₀.store.calls = [] := rfl
    have hproceeds : ReflTransGen State.Proceeds st₀ st :=
      .single (.alone st₀ (.request incoming (by decide +kernel)))
    have hlinks := State.links_of_proceeds hproceeds (State.chained_of_no_calls hnone)
    have hst := State.chained_of_links hlinks (State.chained_of_no_calls hnone)
    have hruns : (Store.chainOf "CA1" st.store).map (fun row =>
          (row.segment.number, row.read.toOption.map fun s => s.scratch.attemptSeq)) = [(0, some 1)] ∧
        ((c.serve "CA1" 0 1).run st).1.toOption = some none ∧
        (Store.chainOf "CA1" st₁.store).map (fun row => row.read.toOption.map fun s => s.scratch.answeredLeg) =
          [some (some "CAleg1")] ∧
        (Store.chainOf "CA1" st'.store).map (fun row => row.read.toOption.map fun s => s.scratch.attemptSeq) = [some 2] ∧
        st'.isUp = true := by
      decide +kernel
    obtain ⟨hfound, hok, hanswered, hnext, hup⟩ := hruns
    obtain ⟨row, hrows, hrow⟩ := List.map_eq_singleton_iff.1 hfound
    obtain ⟨hnumber, hseq⟩ := Prod.mk.inj hrow
    have hmem : row ∈ Store.chainOf "CA1" st.store := hrows ▸ List.mem_singleton_self row
    obtain ⟨v, hread⟩ := (hst.2 "CA1").legible row hmem
    rw [hread] at hseq
    have hone : v.scratch.attemptSeq = 1 := Option.some.inj hseq
    have hstarted : st.Started "CA1" 0 1 := ⟨v, ⟨row, hmem, hnumber, hread⟩, Int.le_of_eq hone.symm⟩
    have hfirst : ((c.serve "CA1" 0 1).run st).1 = .ok none := by
      cases hres : ((c.serve "CA1" 0 1).run st).1 with
      | error e => rw [hres] at hok; cases hok
      | ok d => rw [hres] at hok; cases hok; rfl
    have hrefl (a : State) : ReflTransGen State.Links a a := .refl
    have hagain := (hserved "CA1" 0 st₀ st hnone hlinks hstarted).ends hrefl
    have hleft := (c.upholds_serve ⟨hst, hstarted⟩).ends hrefl
    have hlinks' : ReflTransGen State.Links st₁ st' :=
      State.links_of_proceeds (.single (.alone st₁ (.request replay (by decide +kernel)))) (hleft none hfirst).1
    exact ⟨hnone, hlinks, hstarted, hanswered, hnext, hlinks', (hagain none hfirst st' hlinks').2 hup rfl⟩

end Switchboard
