import Cc2obp.Lib.Run
import Cc2obp.Translate.Local

/-!
# Links do not see each other

Events addressed to different links commute, up to the sequence bytes the links
of one peer share. Over a whole run, what a link does is what it does in the run
of its own events and the ticks.
-/
namespace Cc2obp

/-- The translator as a machine on timed events, under one configuration. -/
def timedStep (cfg : Config) (up : Nat → Bool) (tr : Translator) (e : Rat × TrEvent) :
    Translator × List TrOut :=
  translatorStep { cfg, obpPeerIsEnabled := up, now := e.1 } e.2 tr

theorem LocalAt.framesTo_length {i : Nat} {h : Translator → Translator × List TrOut}
    (own : LocalAt i h) (tr tr' : Translator) (agree : tr.link i = tr'.link i) (peer : Nat) :
    (framesTo peer (h tr).2).length = (framesTo peer (h tr').2).length := by
  have erased := congrArg (fun out => (framesTo peer out).length) (own.same tr tr' agree).2
  simpa [framesTo_eraseSeq] using erased

section Commute
variable {i j : Nat} {h g : Translator → Translator × List TrOut}

theorem LocalAt.commute_link (own : LocalAt i h) (own' : LocalAt j g) (apart : i ≠ j)
    (tr : Translator) (k : Nat) : (g (h tr).1).1.link k = (h (g tr).1).1.link k := by
  by_cases first : k = i
  · subst first
    rw [own'.other _ k apart]
    exact (own.same tr (g tr).1 (own'.other tr k apart).symm).1
  · rw [own.other _ k first]
    by_cases second : k = j
    · subst second
      exact (own'.same (h tr).1 tr (own.other tr k first)).1
    · rw [own'.other _ k second, own'.other _ k second, own.other _ k first]

theorem LocalAt.commute_out (own : LocalAt i h) (own' : LocalAt j g) (apart : i ≠ j)
    (tr : Translator) (k : Nat) :
    linkOut k ((h tr).2 ++ (g (h tr).1).2) = linkOut k ((g tr).2 ++ (h (g tr).1).2) := by
  have kept := own.other tr j (Ne.symm apart)
  have kept' := own'.other tr i apart
  by_cases first : k = i
  · subst first
    simp [own'.linkOut_other _ k apart, (own.view tr (g tr).1 kept'.symm).2]
  · by_cases second : k = j
    · subst second
      simp [own.linkOut_other _ k first, (own'.view (h tr).1 tr kept).2]
    · simp [own.linkOut_other _ k first, own'.linkOut_other _ k second]

theorem LocalAt.commute_count (own : LocalAt i h) (own' : LocalAt j g) (apart : i ≠ j)
    (tr : Translator) (peer : Nat) :
    (g (h tr).1).1.obpSeqCtr peer = (h (g tr).1).1.obpSeqCtr peer := by
  have kept := own.other tr j (Ne.symm apart)
  have kept' := own'.other tr i apart
  rw [(own'.counts (h tr).1 peer).1, (own.counts tr peer).1, (own.counts (g tr).1 peer).1,
    (own'.counts tr peer).1, own'.framesTo_length (h tr).1 tr kept,
    own.framesTo_length (g tr).1 tr kept']
  omega

end Commute

/-- The events a link's own conduit is made of. -/
def Concerns (cfg : Config) (i : Nat) (e : Rat × TrEvent) : Prop :=
  addressee cfg e.2 = some i ∨ e.2 = .tick

def TrEvent.isTick : TrEvent → Bool
  | .tick => true
  | _ => false

theorem TrEvent.isTick_iff (ev : TrEvent) : ev.isTick = true ↔ ev = .tick := by
  cases ev <;> simp [TrEvent.isTick]

instance (cfg : Config) (i : Nat) : DecidablePred (Concerns cfg i) := fun e =>
  decidable_of_iff (addressee cfg e.2 = some i ∨ e.2.isTick = true)
    (by rw [Concerns, TrEvent.isTick_iff])

/-- A link's call up to the sequence byte, nothing of the other links. -/
def seenBy (i : Nat) (o : TrOut) : Option TrOut := if o.link = i then some o.eraseSeq else none

theorem filterMap_seenBy (i : Nat) (out : List TrOut) : out.filterMap (seenBy i) = linkOut i out := by
  induction out with
  | nil => rfl
  | cons o rest ih =>
    by_cases mine : o.link = i <;>
      simpa [seenBy, linkOut, mine] using ih

theorem link_isView (cfg : Config) (up : Nat → Bool) (i : Nat) :
    Machine.IsView (timedStep cfg up) (fun tr => tr.link i) (seenBy i) (Concerns cfg i) where
  other tr e foreign := by
    simp only [Concerns, not_or] at foreign
    rw [filterMap_seenBy]
    cases addressed : addressee cfg e.2 with
    | none =>
      rw [timedStep, translatorStep_unrouted _ e.2 tr addressed foreign.2]
      simp
    | some k =>
      have own := translatorStep_local { cfg, obpPeerIsEnabled := up, now := e.1 } e.2 k addressed
      have apart : i ≠ k := fun same => foreign.1 (same ▸ addressed)
      exact ⟨own.other tr i apart, own.linkOut_other tr i apart⟩
  same tr tr' e agree := by
    rw [filterMap_seenBy, filterMap_seenBy]
    by_cases tick : e.2 = .tick
    · -- the tick comes to the link once, whatever the others are like
      have turns := List.nodup_range (n := cfg.nLink)
      have here := tickLoop_view { cfg, obpPeerIsEnabled := up, now := e.1 } i _ turns (tr, [])
      have there := tickLoop_view { cfg, obpPeerIsEnabled := up, now := e.1 } i _ turns (tr', [])
      have alike := (tickLink_local { cfg, obpPeerIsEnabled := up, now := e.1 } i).view tr tr' agree
      simp only [timedStep, tick, translatorStep, translatorTick_eq]
      split at here <;> split at there
      · rw [here.1, there.1, here.2, there.2]
        exact ⟨alike.1, by rw [alike.2]⟩
      · contradiction
      · contradiction
      · rw [here.1, there.1, here.2, there.2]
        exact ⟨agree, rfl⟩
    · cases addressed : addressee cfg e.2 with
      | none =>
        have idle : ∀ t : Translator, timedStep cfg up t e = (t, []) := fun t =>
          translatorStep_unrouted { cfg, obpPeerIsEnabled := up, now := e.1 } e.2 t addressed tick
        rw [idle, idle]
        exact ⟨agree, rfl⟩
      | some k =>
        have own := translatorStep_local { cfg, obpPeerIsEnabled := up, now := e.1 } e.2 k addressed
        by_cases mine : i = k
        · subst mine
          exact own.view tr tr' agree
        · have skipped : ∀ t : Translator, (timedStep cfg up t e).1.link i = t.link i :=
            fun t => own.other t i mine
          have silent : ∀ t : Translator, linkOut i (timedStep cfg up t e).2 = [] :=
            fun t => own.linkOut_other t i mine
          rw [skipped, skipped, silent, silent]
          exact ⟨agree, rfl⟩

/-- Two events of different links give the same records, frame counts and calls per link in either
order; and over any run a link's record and calls are those of the run of its own events. -/
theorem links_independent (cfg : Config) (up : Nat → Bool) (tr : Translator) :
    (∀ (i j : Nat) (e f : Rat × TrEvent), i ≠ j →
      addressee cfg e.2 = some i → addressee cfg f.2 = some j →
      let ef := Machine.run (timedStep cfg up) tr [e, f]
      let fe := Machine.run (timedStep cfg up) tr [f, e]
      (∀ k, ef.1.link k = fe.1.link k) ∧ (∀ peer, ef.1.obpSeqCtr peer = fe.1.obpSeqCtr peer) ∧
        ∀ k, linkOut k ef.2 = linkOut k fe.2) ∧
    ∀ (i : Nat) (es : List (Rat × TrEvent)),
      let whole := Machine.run (timedStep cfg up) tr es
      let own := Machine.run (timedStep cfg up) tr (es.filter (Concerns cfg i))
      whole.1.link i = own.1.link i ∧ linkOut i whole.2 = linkOut i own.2 := by
  constructor
  · intro i j e f apart first second
    have own := translatorStep_local { cfg, obpPeerIsEnabled := up, now := e.1 } e.2 i first
    have own' := translatorStep_local { cfg, obpPeerIsEnabled := up, now := f.1 } f.2 j second
    simp only [Machine.run_cons, Machine.run_nil, List.append_nil]
    exact ⟨own.commute_link own' apart tr, own.commute_count own' apart tr,
      own.commute_out own' apart tr⟩
  · intro i es
    have views := (link_isView cfg up i).run_filter tr tr rfl es
    simpa only [filterMap_seenBy] using views

/-- Two links on one peer. -/
def twoLinks : Config :=
  { openbridge := [{ enabled := true }]
    link := [{ enabled := true, crossConnectActive := true, tgid := 1 },
      { enabled := true, crossConnectActive := true, tgid := 2 }] }

theorem links_independent_two_bons :
    let e : Rat × TrEvent := (1, .ccccBon 0 7 8 1 9 0x47 #v[1, 2, 3, 4])
    let f : Rat × TrEvent := (2, .ccccBon 1 5 6 1 9 0x47 #v[5, 6, 7, 8])
    let ef := Machine.run (timedStep twoLinks fun _ => true) {} [e, f]
    let fe := Machine.run (timedStep twoLinks fun _ => true) {} [f, e]
    (∀ k, ef.1.link k = fe.1.link k) ∧ (∀ peer, ef.1.obpSeqCtr peer = fe.1.obpSeqCtr peer) ∧
      ∀ k, linkOut k ef.2 = linkOut k fe.2 :=
  (links_independent twoLinks (fun _ => true) {}).1 0 1 _ _ (by decide) rfl rfl

end Cc2obp
