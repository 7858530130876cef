import Cc2obp.Translate.Contention

/-!
# Who a cc-origin call is from

The frames of a link name the radio of the call on record. A B-on that finds a
call open is dropped, so they name the radio of the latest B-on as long as no
B-on names another radio than the call it finds open.
-/
namespace Cc2obp

/-- A B-on of the link. -/
def IsBon (i : Nat) : TrEvent → Prop
  | .ccccBon link .. => link = i
  | _ => False

/-- The frames of the link between a B-on and the next name the radio of the B-on. -/
def LatestCaller (i : Nat) (es : List (Env × TrEvent)) : Prop :=
  ∀ (before after : List (Env × TrEvent)) (env : Env) (radioId peerId : BitVec 32) (srcLid tgid : Int)
    (callType : Byte) (rand : Bytes 4),
    es = before ++ (env, .ccccBon i radioId peerId srcLid tgid callType rand) :: after →
    ∀ mid rest, after = mid ++ rest → (∀ e ∈ mid, ¬IsBon i e.2) →
      ∀ body ∈ framesFor i (Machine.run envStep (Machine.run envStep {} before).1
        ((env, .ccccBon i radioId peerId srcLid tgid callType rand) :: mid)).2,
        body.src = radioId &&& 0xFFFFFF#32

/-- A B-on that finds a cc-origin call open names its radio. -/
def SameCaller (i : Nat) (tr : Translator) (e : Env × TrEvent) : Prop :=
  match e.2 with
  | .ccccBon link radioId .. =>
    link = i → (tr.link i).inCall .cc = true → radioId &&& 0xFFFFFF#32 = (tr.link i).call.rfSrc &&& 0xFFFFFF#32
  | _ => True

/-- The call on record, if it is cc-origin, is from the radio. -/
def CallFrom (lr : LinkRuntime) (radioId : BitVec 32) : Prop :=
  lr.inCall .cc = true → lr.call.rfSrc &&& 0xFFFFFF#32 = radioId &&& 0xFFFFFF#32

section
variable {env : Env} {i : Nat} {tr : Translator} {ev : TrEvent} {lr lr' : LinkRuntime} {out : List TrOut}
  {radioId : BitVec 32}

theorem src_of_framesFor (body : DmrdBody) (sent : body ∈ framesFor i (translatorStep env ev tr).2)
    (named : ∀ b ∈ framesFor i (linkOut i (translatorStep env ev tr).2), b.src = radioId &&& 0xFFFFFF#32) :
    body.src = radioId &&& 0xFFFFFF#32 := by
  rw [← src_eraseSeq]
  apply named
  rw [← framesFor_linkOut]
  exact List.mem_map_of_mem sent

/-- No event but a B-on changes the caller, and the frames name it. -/
theorem LinkStep.callFrom (step : LinkStep env i ev lr out lr') (notBon : ¬IsBon i ev) (caller : CallFrom lr radioId) :
    CallFrom lr' radioId ∧ ∀ b ∈ framesFor i out, b.src = radioId &&& 0xFFFFFF#32 := by
  cases step with
  | quiet => exact ⟨caller, by simp [framesFor]⟩
  | ccStart => exact absurd rfl notBon
  | ccBurst _ _ _ _ _ _ _ active =>
    refine ⟨caller, ?_⟩
    simp [framesFor, TrOut.frameFor, fillDmrd, caller active]
  | ccEnd _ _ active =>
    refine ⟨by simp [CallFrom, LinkRuntime.inCall], ?_⟩
    simp [framesFor, TrOut.frameFor, fillDmrd, caller active]
  | obpStart => exact ⟨by simp [CallFrom, LinkRuntime.inCall, obpCall], by simp [framesFor, TrOut.frameFor, bonOf]⟩
  | obpOrphan => exact ⟨by simp [CallFrom, LinkRuntime.inCall, obpCall], by simp [framesFor, TrOut.frameFor, bonOf]⟩
  | obpBurst => exact ⟨caller, by simp [framesFor, TrOut.frameFor]⟩
  | obpEnd => exact ⟨by simp [CallFrom, LinkRuntime.inCall], by simp [framesFor, TrOut.frameFor]⟩
  | cleared => exact ⟨by simp [CallFrom, LinkRuntime.inCall], by simp [framesFor]⟩

/-- After a B-on the call on record, if any, is from its radio. -/
theorem LinkStep.bon_callFrom {peerId : BitVec 32} {srcLid tgid : Int} {callType : Byte} {rand : Bytes 4}
    (step : LinkStep env i (.ccccBon i radioId peerId srcLid tgid callType rand) lr out lr')
    (caller : CallFrom lr radioId) :
    CallFrom lr' radioId ∧ ∀ b ∈ framesFor i out, b.src = radioId &&& 0xFFFFFF#32 := by
  cases step with
  | quiet => exact ⟨caller, by simp [framesFor]⟩
  | ccStart =>
    refine ⟨fun _ => rfl, ?_⟩
    simp [framesFor, TrOut.frameFor, fillDmrd, ccCall]
  | ccEnd _ _ _ ending => cases ending
  | obpEnd _ _ ending => cases ending

end

/-- A stretch without B-ons keeps the caller, and its frames name it. -/
theorem run_callFrom {cfg : Config} {i : Nat} {radioId : BitVec 32} (mid : List (Env × TrEvent)) (tr : Translator)
    (toggles : ∀ e ∈ mid, e.1.cfg.fixed = cfg.fixed) (resolved : Resolved cfg tr) (notBon : ∀ e ∈ mid, ¬IsBon i e.2)
    (caller : CallFrom (tr.link i) radioId) :
    ∀ body ∈ framesFor i (Machine.run envStep tr mid).2, body.src = radioId &&& 0xFFFFFF#32 := by
  induction mid generalizing tr with
  | nil => simp [framesFor]
  | cons e rest ih =>
    have fixed := toggles e (by simp)
    have resolved' := (resolved_of_fixed fixed tr).mpr resolved
    have step := (translatorStep_link e.1 e.2 resolved' i).callFrom (notBon e (by simp)) caller
    have later := ih (envStep tr e).1 (fun e' member => toggles e' (by simp [member]))
      ((resolved_of_fixed fixed _).mp (translatorStep_resolved e.1 e.2 tr resolved'))
      (fun e' member => notBon e' (by simp [member])) step.1
    intro body sent
    rw [Machine.run_cons, framesFor_append, List.mem_append] at sent
    rcases sent with here | there
    · exact src_of_framesFor body here step.2
    · exact later body there

/-- In every run in which B-ons that find a cc-origin call open name its radio, the frames after a
B-on name the radio of that B-on. -/
theorem latest_caller (cfg : Config) (i : Nat) (es : List (Env × TrEvent))
    (toggles : ∀ e ∈ es, e.1.cfg.fixed = cfg.fixed) (same : Machine.Meets envStep (SameCaller i) {} es) :
    LatestCaller i es := by
  rintro before after env radioId peerId srcLid tgid callType rand rfl mid rest rfl notBon body sent
  have resolved := reachable_resolved cfg before fun e member => toggles e (by simp [member])
  have fixed : env.cfg.fixed = cfg.fixed := toggles _ (List.mem_append_right before List.mem_cons_self)
  have resolved' := (resolved_of_fixed fixed _).mpr resolved
  have found := ((Machine.meets_append envStep (SameCaller i) {} before _).mp same).2.1
  -- the B-on finds no call, or one of its own radio
  have caller : CallFrom ((Machine.run envStep {} before).1.link i) radioId := fun active => (found rfl active).symm
  have step := (translatorStep_link env (.ccccBon i radioId peerId srcLid tgid callType rand) resolved' i).bon_callFrom caller
  rw [Machine.run_cons, framesFor_append, List.mem_append] at sent
  rcases sent with here | there
  · exact src_of_framesFor body here step.2
  · apply run_callFrom mid _ (fun e member => toggles e (by simp [member])) _ notBon step.1 body there
    exact (resolved_of_fixed fixed _).mp (translatorStep_resolved env _ _ resolved')

theorem latest_caller_one_call :
    LatestCaller 0 [(onAir, .ccccBon 0 7 8 1 9 0x47 #v[1, 2, 3, 4]), (onAir, .ccccBoff 0 0 0),
      (onAir, .ccccBon 0 6 8 1 9 0x47 #v[5, 6, 7, 8])] :=
  latest_caller (oneLink true) 0 _ (by simp [onAir]) ⟨fun _ active => (nomatch active), trivial, fun _ active => (nomatch active), trivial⟩

/-- A B-off is missing: the B-on of radio 6 is dropped, and the frame after it names radio 7. -/
theorem stale_caller : ¬LatestCaller 0 [(onAir, .ccccBon 0 7 8 1 9 0x47 #v[1, 2, 3, 4]),
    (onAir, .ccccBon 0 6 8 1 9 0x47 #v[5, 6, 7, 8]), (onAir, .ccccBoff 0 0 0)] := by
  intro latest
  have named := latest [(onAir, .ccccBon 0 7 8 1 9 0x47 #v[1, 2, 3, 4])] [(onAir, .ccccBoff 0 0 0)] onAir 6 8 1 9 0x47
    #v[5, 6, 7, 8] rfl [(onAir, .ccccBoff 0 0 0)] [] rfl (by simp [IsBon])
  have sent := named (fillDmrd (onAir.cfg.linkAt 0) (ccCall 0 9 7 8 #v[1, 2, 3, 4]) 1 vtermFlags
    (buildHeadTermPayload (buildLc 9 7) true)) (List.mem_singleton.mpr rfl)
  rw [fillDmrd, src_dmrdBody] at sent
  revert sent
  decide

end Cc2obp
