import Ikran.Sip.Url

/-!
# Redirection

`sip_redirect` of `ccsip_core.c` with the handlers that call it while the INVITE of a call is not answered. The record
route is freed before an INVITE is sent, so that its URI is not taken from the Contact list. There is memory for
`redirect_info`.
-/

namespace Sip.Redirect

/-- The schemas of the locations that `sippmh_parse_contact` returns. The cells behind them are NULL. -/
structure Contact where
  locations : List UrlSchema
  ne_nil : locations ≠ []
  length_le : locations.length ≤ sipMaxLocations

/-- What becomes of a location that is tried: the lookup of its host fails, there is no memory for the INVITE, or it
is built, which fails or not. -/
inductive Outcome
  | dnsFailed | noMessage | inviteFailed | inviteSent
  deriving DecidableEq

inductive Event
  | reads (location numLocations : ℕ)
  | readsUrl (schema : UrlSchema)
  | tries (location : ℕ)
  | releases
  deriving DecidableEq

/-- `sipRedirectInfo_t`. -/
structure RedirectInfo where
  sipContact : Option Contact := none
  nextChoice : ℕ := 0

inductive State
  | sentInvite | release
  deriving DecidableEq

/-- The part of `ccsipCCB_t` that redirection uses. -/
structure Ccb where
  redirectInfo : Option RedirectInfo := none
  firstPass3xx : Bool := true
  state : State := .sentInvite

/-- The locations that are skipped since they are not SIP ones, with the location that is left and `next_choice`. -/
def skipLoop (c : Contact) : ℕ → Option UrlSchema → ℕ → List Event × Option UrlSchema × ℕ
  | 0, sipLocation, nextChoice => ([], sipLocation, nextChoice)
  | fuel + 1, sipLocation, nextChoice =>
    if sipLocation.any (· != .sip) && nextChoice < sipMaxLocations then
      let r := skipLoop c fuel c.locations[nextChoice]? (nextChoice + 1)
      (.reads nextChoice c.locations.length :: r.1, r.2)
    else ([], sipLocation, nextChoice)

/-- What `sipSPISendInvite` reads of the Contact list: the headers of the first location. -/
def sipSPISendInvite (c : Contact) : Outcome → List Event
  | .dnsFailed | .noMessage => []
  | .inviteFailed | .inviteSent => [.readsUrl (c.locations.head c.ne_nil)]

def Ccb.release (ccb : Ccb) (events : List Event) : Ccb × List Event × Option ℕ :=
  ({ ccb with state := .release }, events ++ [.releases], none)

/-- The rest of a turn, from the location it starts with. -/
def Ccb.tryFrom (ccb : Ccb) (status : ℕ) (outcome : Outcome) (c : Contact) (choice : ℕ) :
    Ccb × List Event × Option ℕ :=
  let r := skipLoop c sipMaxLocations c.locations[choice]? (choice + 1)
  let events := .reads choice c.locations.length :: r.1
  let nextChoice := r.2.2
  let ccb := { ccb with redirectInfo := some ⟨some c, nextChoice⟩ }
  r.2.1.elim (ccb.release events) fun schema =>
    let events := events ++ [.readsUrl schema, .tries (nextChoice - 1)] ++ sipSPISendInvite c outcome
    match outcome with
    | .dnsFailed => if nextChoice < sipMaxLocations then (ccb, events, some status) else ccb.release events
    | .noMessage | .inviteFailed => (ccb, events, some 100)
    | .inviteSent => (ccb, events, none)

/-- One turn of the loop of `sip_redirect`, with the status code of the next one. -/
def Ccb.redirectTurn (ccb : Ccb) (contact : Option Contact) (status : ℕ) (outcome : Outcome) :
    Ccb × List Event × Option ℕ :=
  let info := ccb.redirectInfo.getD {}
  let ccb := { ccb with redirectInfo := some info }
  if sipMaxLocations ≤ info.nextChoice then ccb.release []
  else if 300 ≤ status && status ≤ 305 && ccb.firstPass3xx then
    let ccb := { ccb with firstPass3xx := false, redirectInfo := some { info with sipContact := contact } }
    contact.elim (ccb.release []) fun c => ccb.tryFrom status outcome c 0
  else info.sipContact.elim (ccb.release []) fun c =>
    if c.locations.length ≤ info.nextChoice then ccb.release [] else ccb.tryFrom status outcome c info.nextChoice

/-- The loop of `sip_redirect`, if it ends within the fuel. The outcomes are those of the turns. -/
def redirectLoop (contact : Option Contact) : ℕ → ℕ → (ℕ → Outcome) → Ccb → Option (Ccb × List Event)
  | 0, _, _, _ => none
  | fuel + 1, status, outcomes, ccb =>
    let r := ccb.redirectTurn contact status (outcomes 0)
    r.2.2.elim (some (r.1, r.2.1)) fun status =>
      (redirectLoop contact fuel status (fun k => outcomes (k + 1)) r.1).map fun r' => (r'.1, r.2.1 ++ r'.2)

def Ccb.sipRedirect (ccb : Ccb) (contact : Option Contact) (status : ℕ) (outcomes : ℕ → Outcome) :
    Option (Ccb × List Event) :=
  redirectLoop contact (sipMaxLocations + 1) status outcomes ccb

/-- What the INVITE meets: a 3xx response with its Contact, or a response or timeout that fails it. -/
inductive Call
  | redirected (status : ℕ) (contact : Option Contact) (outcomes : ℕ → Outcome)
  | failed (status : ℕ) (outcomes : ℕ → Outcome)

/-- The status codes that are redirected for. -/
def isRedirect (status : ℕ) : Bool := [300, 301, 302, 305].contains status

/-- The handlers of a call whose INVITE is not answered. -/
def Ccb.handle (ccb : Ccb) : Call → Option (Ccb × List Event)
  | .redirected status contact outcomes =>
    if ccb.state = .sentInvite && isRedirect status then
      { ccb with firstPass3xx := true }.sipRedirect contact status outcomes
    else some (ccb, [])
  | .failed status outcomes =>
    if ccb.state = .sentInvite && ccb.redirectInfo.isSome then ccb.sipRedirect none status outcomes
    else some (ccb, [])

def run : Ccb → List Call → Option (Ccb × List Event)
  | ccb, [] => some (ccb, [])
  | ccb, call :: calls => (ccb.handle call).bind fun r => (run r.1 calls).map fun r' => (r'.1, r.2 ++ r'.2)

/-! ## Trying each contact once -/

/-- The places of the SIP locations of a list. -/
def sipLocations : ℕ → List UrlSchema → List ℕ
  | _, [] => []
  | n, schema :: l => if schema = .sip then n :: sipLocations (n + 1) l else sipLocations (n + 1) l

/-- Those of a Contact that may be missing. -/
def firstLocations (contact : Option Contact) : List ℕ := contact.elim [] fun c => sipLocations 0 c.locations

/-- The locations that are left are tried in order until an INVITE is sent, and without one the call is released. -/
def attempts : List ℕ → (ℕ → Outcome) → List Event × Option (List ℕ)
  | [], _ => ([.releases], none)
  | i :: left, outcomes =>
    if outcomes 0 = .inviteSent then ([.tries i], some left)
    else
      let r := attempts left fun k => outcomes (k + 1)
      (.tries i :: r.1, r.2)

/-- The locations that are left to a call: none before it is redirected, and no more when it is released. -/
inductive Plan
  | fresh
  | redirected (left : List ℕ)
  | released

/-- The locations of a list are tried. -/
def Plan.attempt (left : List ℕ) (outcomes : ℕ → Outcome) : Plan × List Event :=
  let r := attempts left outcomes
  (r.2.elim .released .redirected, r.1)

def Plan.handle : Plan → Call → Plan × List Event
  | .released, _ => (.released, [])
  | .fresh, .failed .. => (.fresh, [])
  | .redirected left, .failed _ outcomes => attempt left outcomes
  | plan, .redirected status contact outcomes =>
    if isRedirect status then
      attempt (firstLocations contact) outcomes
    else (plan, [])

/-- The events that the plan speaks of. -/
def Event.isShown : Event → Bool
  | .reads .. | .readsUrl _ => false
  | .tries _ | .releases => true

/-- Only locations of the list are read, and only SIP ones as SIP URLs. -/
def Event.Right : Event → Prop
  | .reads location numLocations => location < numLocations
  | .readsUrl schema => schema = .sip
  | .tries _ | .releases => True

/-- The events of a run are those that are planned. -/
def planned : Plan → List Call → List Event
  | _, [] => []
  | plan, call :: calls => (plan.handle call).2 ++ planned (plan.handle call).1 calls

/-- A run ends, reads nothing that it must not, tries the SIP locations in order and releases the call when none is
left. -/
def Ccb.Redirects (ccb : Ccb) (plan : Plan) (calls : List Call) : Prop :=
  ∃ ccb' events, run ccb calls = some (ccb', events) ∧ (∀ event ∈ events, event.Right) ∧
    events.filter Event.isShown = planned plan calls

/-- The first location is a SIP one if an INVITE is built, and the last one if no INVITE is sent. -/
def Contact.Safe (c : Contact) : List ℕ → (ℕ → Outcome) → Prop
  | [], _ => c.locations.getLast c.ne_nil = .sip
  | _ :: left, outcomes =>
    (c.locations.head c.ne_nil = .sip ∨ outcomes 0 = .dnsFailed ∨ outcomes 0 = .noMessage) ∧
      (outcomes 0 ≠ .inviteSent → c.Safe left fun k => outcomes (k + 1))

def Ccb.Meets (ccb : Ccb) : Call → Prop
  | .redirected status contact outcomes => ccb.state = .sentInvite → isRedirect status →
    ∀ c, contact = some c → if (ccb.redirectInfo.getD {}).nextChoice < sipMaxLocations
      then c.Safe (sipLocations 0 c.locations) outcomes else .sip ∉ c.locations
  | .failed _ outcomes => ccb.state = .sentInvite → ∀ c n, ccb.redirectInfo = some ⟨some c, n⟩ →
    c.Safe (sipLocations n (c.locations.drop n)) outcomes

/-- Every call of a run meets this. -/
def AllMeet : Ccb → List Call → Prop
  | _, [] => True
  | ccb, call :: calls => ccb.Meets call ∧ ∀ r, ccb.handle call = some r → AllMeet r.1 calls

def Ccb.Follows (ccb : Ccb) : Plan → Prop
  | .fresh => ccb.state = .sentInvite ∧ ccb.redirectInfo = none
  | .redirected left => ∃ c n, ccb = ⟨some ⟨some c, n⟩, false, .sentInvite⟩ ∧ n ≤ sipMaxLocations ∧
    sipLocations n (c.locations.drop n) = left
  | .released => ccb.state = .release

def Agrees (r : Option (Ccb × List Event)) (plan : Plan × List Event) : Prop :=
  ∃ ccb events, r = some (ccb, events) ∧ (∀ event ∈ events, event.Right) ∧
    events.filter Event.isShown = plan.2 ∧ ccb.Follows plan.1

variable {c : Contact} {n i fuel status : ℕ} {left : List ℕ} {pre post : List UrlSchema} {ccb : Ccb}
  {contact : Option Contact} {outcomes : ℕ → Outcome} {outcome : Outcome}

theorem sipLocations_eq_nil_iff {l : List UrlSchema} : sipLocations n l = [] ↔ .sip ∉ l := by
  induction l generalizing n with
  | nil => exact iff_of_true rfl List.not_mem_nil
  | cons schema l ih =>
    rw [sipLocations, List.mem_cons, not_or]
    split_ifs with hschema
    · simp [hschema]
    · rw [ih]
      exact (and_iff_right (Ne.symm hschema)).symm

/-- The next SIP location is the first one of the list that is left. -/
theorem exists_of_sipLocations_eq_cons {l : List UrlSchema} (h : sipLocations n l = i :: left) :
    ∃ pre post, l = pre ++ .sip :: post ∧ .sip ∉ pre ∧ i = n + pre.length ∧ sipLocations (i + 1) post = left := by
  induction l generalizing n with
  | nil => cases h
  | cons schema l ih =>
    rw [sipLocations] at h
    split_ifs at h with hschema
    · obtain ⟨rfl, hleft⟩ := List.cons.inj h
      exact ⟨[], l, by rw [hschema]; rfl, List.not_mem_nil, rfl, hleft⟩
    · obtain ⟨pre, post, rfl, hpre, rfl, hleft⟩ := ih h
      refine ⟨schema :: pre, post, rfl, ?_, by rw [List.length_cons]; omega, hleft⟩
      rw [List.mem_cons, not_or]
      exact ⟨Ne.symm hschema, hpre⟩

/-- The next SIP location is found, and what is read on the way is in the list. By induction on what is skipped. -/
theorem skipLoop_spec (hdrop : c.locations.drop n = pre ++ .sip :: post) (hpre : .sip ∉ pre)
    (hfuel : pre.length ≤ fuel) : ∃ events,
      skipLoop c fuel c.locations[n]? (n + 1) = (events, some .sip, n + pre.length + 1) ∧
        ∀ event ∈ events, event.Right ∧ event.isShown = false := by
  have hhead : c.locations[n]? = (pre ++ .sip :: post).head? := by rw [← hdrop, List.head?_drop]
  induction pre generalizing n fuel with
  | nil =>
    refine ⟨[], ?_, fun _ h => absurd h List.not_mem_nil⟩
    rw [hhead]
    cases fuel <;> rfl
  | cons schema pre ih =>
    rw [List.mem_cons, not_or] at hpre
    obtain ⟨fuel, rfl⟩ := Nat.exists_eq_add_one.mpr (Nat.zero_lt_of_lt hfuel)
    have hdrop' : c.locations.drop (n + 1) = pre ++ .sip :: post := by
      rw [← List.tail_drop, hdrop]
      rfl
    have hlt : n + 1 < c.locations.length := by
      have hlength := congrArg List.length hdrop'
      rw [List.length_drop, List.length_append, List.length_cons] at hlength
      omega
    obtain ⟨events, hskip, hevents⟩ := ih hdrop' hpre.2 (Nat.le_of_succ_le_succ hfuel)
      (by rw [← hdrop', List.head?_drop])
    refine ⟨.reads (n + 1) c.locations.length :: events, ?_, List.forall_mem_cons.mpr ⟨⟨hlt, rfl⟩, hevents⟩⟩
    rw [skipLoop, hhead, if_pos, hskip, List.length_cons, show n + 1 + pre.length = n + (pre.length + 1) by omega]
    simpa using ⟨Ne.symm hpre.1, hlt.trans_le c.length_le⟩

theorem sendInvite_right (hhead : c.locations.head c.ne_nil = .sip ∨ outcome = .dnsFailed ∨ outcome = .noMessage) :
    ∀ event ∈ sipSPISendInvite c outcome, event.Right ∧ event.isShown = false := by
  intro event hevent
  cases outcome with
  | dnsFailed | noMessage => cases hevent
  | inviteFailed | inviteSent =>
    obtain rfl := List.mem_singleton.mp hevent
    exact ⟨show c.locations.head c.ne_nil = .sip by simpa using hhead, rfl⟩

/-- A turn tries the next SIP location. -/
theorem tryFrom_spec (ccb : Ccb) (status : ℕ) (hleft : sipLocations n (c.locations.drop n) = i :: left)
    (hhead : c.locations.head c.ne_nil = .sip ∨ outcome = .dnsFailed ∨ outcome = .noMessage) :
    n ≤ i ∧ i < sipMaxLocations ∧ sipLocations (i + 1) (c.locations.drop (i + 1)) = left ∧ ∃ events,
      (∀ event ∈ events, event.Right) ∧ events.filter Event.isShown = [.tries i] ∧ ccb.tryFrom status outcome c n =
          let ccb := { ccb with redirectInfo := some ⟨some c, i + 1⟩ }
          match outcome with
          | .dnsFailed => if i + 1 < sipMaxLocations then (ccb, events, some status) else ccb.release events
          | .noMessage | .inviteFailed => (ccb, events, some 100)
          | .inviteSent => (ccb, events, none) := by
  obtain ⟨pre, post, hdrop, hpre, rfl, hpost⟩ := exists_of_sipLocations_eq_cons hleft
  have hlength := congrArg List.length hdrop
  rw [List.length_drop, List.length_append, List.length_cons] at hlength
  have hlt : n + pre.length < c.locations.length := by omega
  have hmax := c.length_le
  obtain ⟨events, hskip, hevents⟩ := skipLoop_spec hdrop hpre (show pre.length ≤ sipMaxLocations by omega)
  refine ⟨Nat.le_add_right n _, hlt.trans_le hmax, ?_, .reads n c.locations.length :: events ++
    [.readsUrl .sip, .tries (n + pre.length)] ++ sipSPISendInvite c outcome, ?_, ?_, ?_⟩
  · rw [← hpost, Nat.add_assoc, ← List.drop_drop, hdrop, List.append_cons, List.drop_left' (by simp)]
  · intro event hevent
    simp only [List.mem_append, List.mem_cons, List.not_mem_nil, or_false] at hevent
    rcases hevent with ((rfl | hevent) | rfl | rfl) | hevent
    · exact (Nat.le_add_right n _).trans_lt hlt
    · exact (hevents event hevent).1
    · rfl
    · trivial
    · exact (sendInvite_right hhead event hevent).1
  · have hfront : (.reads n c.locations.length :: events).filter Event.isShown = [] :=
      List.filter_eq_nil_iff.mpr (List.forall_mem_cons.mpr
        ⟨Bool.false_ne_true, fun event hevent => by simp [(hevents event hevent).2]⟩)
    have hback : (sipSPISendInvite c outcome).filter Event.isShown = [] :=
      List.filter_eq_nil_iff.mpr fun event hevent => by simp [(sendInvite_right hhead event hevent).2]
    rw [List.filter_append, List.filter_append, hfront, hback]
    rfl
  · rw [Ccb.tryFrom, hskip]
    cases outcome <;> rfl

/-- A turn starts with the next location of the list, if there is one. -/
theorem redirectTurn_eq (state : State) : Ccb.redirectTurn ⟨some ⟨some c, n⟩, false, state⟩ contact status outcome =
    if c.locations.length ≤ n then Ccb.release ⟨some ⟨some c, n⟩, false, state⟩ []
    else Ccb.tryFrom ⟨some ⟨some c, n⟩, false, state⟩ status outcome c n := by
  rw [Ccb.redirectTurn]
  by_cases hmax : sipMaxLocations ≤ n
  · rw [if_pos (c.length_le.trans hmax)]
    exact if_pos hmax
  · exact (if_neg hmax).trans (if_neg (by simp))

/-- A call of `sip_redirect` tries the locations that are left. By induction on the turns. -/
theorem redirectLoop_spec (hn : n ≤ sipMaxLocations) (hfuel : sipMaxLocations < fuel + n)
    (hsafe : c.Safe (sipLocations n (c.locations.drop n)) outcomes) :
    Agrees (redirectLoop contact fuel status outcomes ⟨some ⟨some c, n⟩, false, .sentInvite⟩)
      (Plan.attempt (sipLocations n (c.locations.drop n)) outcomes) := by
  induction fuel generalizing n status outcomes with
  | zero => omega
  | succ fuel ih =>
    rw [redirectLoop, redirectTurn_eq]
    cases hleft : sipLocations n (c.locations.drop n) with
    | nil =>
      rw [hleft] at hsafe
      have hle : c.locations.length ≤ n := by
        by_contra hlt
        refine sipLocations_eq_nil_iff.mp hleft ?_
        rw [← hsafe, ← List.getLast_drop (by simpa using hlt)]
        exact List.getLast_mem _
      rw [if_pos hle]
      exact ⟨_, _, rfl, List.forall_mem_singleton.mpr trivial, rfl, rfl⟩
    | cons i left =>
      rw [hleft] at hsafe
      have hlt : ¬ c.locations.length ≤ n := fun hle => by
        rw [List.drop_eq_nil_of_le hle] at hleft
        cases hleft
      obtain ⟨hni, hi, hrest, events, hright, hshown, hturn⟩ :=
        tryFrom_spec ⟨some ⟨some c, n⟩, false, .sentInvite⟩ status hleft hsafe.1
      rw [if_neg hlt, hturn, Plan.attempt, attempts]
      -- the turns behind this one
      have hnext : outcomes 0 ≠ .inviteSent → ∀ status', Agrees
          ((redirectLoop contact fuel status' (fun k => outcomes (k + 1))
            ⟨some ⟨some c, i + 1⟩, false, .sentInvite⟩).map fun r => (r.1, events ++ r.2))
          (let r := attempts left fun k => outcomes (k + 1)
           (r.2.elim .released .redirected, .tries i :: r.1)) := fun hne status' => by
        obtain ⟨ccb', events', hloop, hright', hshown', hfollows⟩ :=
          @ih (i + 1) status' _ hi (by omega) (by rw [hrest]; exact hsafe.2 hne)
        rw [hrest] at hshown' hfollows
        refine ⟨ccb', events ++ events', by rw [hloop]; rfl, List.forall_mem_append.mpr ⟨hright, hright'⟩, ?_, hfollows⟩
        rw [List.filter_append, hshown, hshown']
        rfl
      cases houtcome : outcomes 0 with
      | dnsFailed =>
        rw [if_neg (by decide)]
        dsimp only
        split_ifs with hmax
        · exact hnext (by rw [houtcome]; decide) status
        · have hle := c.length_le
          obtain rfl : left = [] := by rw [← hrest, List.drop_eq_nil_of_le (by omega)]; rfl
          refine ⟨⟨some ⟨some c, i + 1⟩, false, .release⟩, events ++ [.releases], rfl,
            List.forall_mem_append.mpr ⟨hright, ?_⟩, ?_, rfl⟩
          · exact List.forall_mem_singleton.mpr trivial
          · rw [List.filter_append, hshown]
            rfl
      | noMessage | inviteFailed =>
        rw [if_neg (by decide)]
        exact hnext (by rw [houtcome]; decide) 100
      | inviteSent =>
        rw [if_pos rfl]
        exact ⟨_, events, rfl, hright, hshown, c, i + 1, rfl, hi, hrest⟩

/-- A 3xx response starts with the first location of its list. -/
theorem redirectTurn_first (hfirst : ccb.firstPass3xx = true) (hstatus : isRedirect status)
    (hnext : (ccb.redirectInfo.getD {}).nextChoice < sipMaxLocations) :
    ccb.redirectTurn (some c) status outcome =
      Ccb.redirectTurn ⟨some ⟨some c, 0⟩, false, ccb.state⟩ (some c) status outcome := by
  obtain ⟨_, _, _⟩ := ccb
  subst hfirst
  rw [redirectTurn_eq, if_neg (not_le.mpr (List.length_pos_iff.mpr c.ne_nil)), Ccb.redirectTurn,
    if_neg (not_le.mpr hnext), if_pos (by simp [isRedirect] at hstatus ⊢; omega)]
  rfl

/-- Without a location to try, the call is released. -/
theorem agrees_release (h : (ccb.redirectTurn contact status (outcomes 0)).2 = ([.releases], none))
    (hstate : (ccb.redirectTurn contact status (outcomes 0)).1.state = .release) :
    Agrees (redirectLoop contact (fuel + 1) status outcomes ccb) (Plan.attempt [] outcomes) := by
  refine ⟨_, [.releases], ?_, List.forall_mem_singleton.mpr trivial, rfl, hstate⟩
  rw [redirectLoop, h]
  rfl

/-- What a 3xx response leads to. -/
theorem redirected_spec (hfirst : ccb.firstPass3xx = true) (hstate : ccb.state = .sentInvite)
    (hstatus : isRedirect status)
    (hmeets : ∀ c, contact = some c → if (ccb.redirectInfo.getD {}).nextChoice < sipMaxLocations
      then c.Safe (sipLocations 0 c.locations) outcomes else .sip ∉ c.locations) :
    Agrees (ccb.sipRedirect contact status outcomes) (Plan.attempt (firstLocations contact) outcomes) := by
  by_cases hnext : (ccb.redirectInfo.getD {}).nextChoice < sipMaxLocations
  · cases contact with
    | none =>
      refine agrees_release (?_ : (ccb.redirectTurn none status (outcomes 0)).2 = _) ?_ <;>
        rw [Ccb.redirectTurn, if_neg (not_le.mpr hnext),
          if_pos (by simp [isRedirect, hfirst] at hstatus ⊢; omega)] <;> rfl
    | some c =>
      have hsafe := hmeets c rfl
      rw [if_pos hnext] at hsafe
      rw [Ccb.sipRedirect, redirectLoop, redirectTurn_first hfirst hstatus hnext, hstate, ← redirectLoop]
      exact redirectLoop_spec (Nat.zero_le _) (by omega) hsafe
  · have hleft : firstLocations contact = [] := by
      cases contact with
      | none => rfl
      | some c =>
        have hnone := hmeets c rfl
        rw [if_neg hnext] at hnone
        exact sipLocations_eq_nil_iff.mpr hnone
    rw [hleft]
    refine agrees_release (?_ : (ccb.redirectTurn contact status (outcomes 0)).2 = _) ?_ <;>
      rw [Ccb.redirectTurn, if_pos (not_lt.mp hnext)] <;> rfl

/-- A call of the handlers does what is planned. -/
theorem handle_spec {plan : Plan} (hfollows : ccb.Follows plan) {call : Call} (hmeets : ccb.Meets call) :
    Agrees (ccb.handle call) (plan.handle call) := by
  have hskip : ccb.handle call = some (ccb, []) → plan.handle call = (plan, []) →
      Agrees (ccb.handle call) (plan.handle call) := fun hhandle hplan => by
    rw [hhandle, hplan]
    exact ⟨ccb, [], rfl, List.forall_mem_nil _, rfl, hfollows⟩
  cases call with
  | redirected status contact outcomes =>
    by_cases hcall : ccb.state = .sentInvite ∧ isRedirect status
    · have hplan : plan.handle (.redirected status contact outcomes) =
          Plan.attempt (firstLocations contact) outcomes := by
        cases plan with
        | released => exact absurd (hcall.1.symm.trans hfollows) (by decide)
        | fresh | redirected => exact if_pos hcall.2
      rw [hplan, Ccb.handle, if_pos (by simpa using hcall)]
      exact redirected_spec rfl hcall.1 hcall.2 (hmeets hcall.1 hcall.2)
    · refine hskip (by rw [Ccb.handle, if_neg (by simpa using hcall)]) ?_
      cases plan with
      | released => rfl
      | fresh => exact if_neg fun hstatus => hcall ⟨hfollows.1, hstatus⟩
      | redirected left =>
        obtain ⟨c, n, rfl, -⟩ := hfollows
        exact if_neg fun hstatus => hcall ⟨rfl, hstatus⟩
  | failed status outcomes =>
    cases plan with
    | released => exact hskip (by rw [Ccb.handle, if_neg (by simp [show ccb.state = .release from hfollows])]) rfl
    | fresh => exact hskip (by rw [Ccb.handle, if_neg (by simp [hfollows.2])]) rfl
    | redirected left =>
      obtain ⟨c, n, rfl, hn, rfl⟩ := hfollows
      rw [Ccb.handle, if_pos (by simp)]
      exact redirectLoop_spec hn (by omega) (hmeets rfl c n rfl)

/-- A run does what is planned. By induction on its calls. -/
theorem run_spec {plan : Plan} (hfollows : ccb.Follows plan) {calls : List Call} (hmeets : AllMeet ccb calls) :
    ccb.Redirects plan calls := by
  induction calls generalizing ccb plan with
  | nil => exact ⟨ccb, [], rfl, List.forall_mem_nil _, rfl⟩
  | cons call calls ih =>
    obtain ⟨ccb₁, events, hhandle, hright, hshown, hfollows₁⟩ := handle_spec hfollows hmeets.1
    obtain ⟨ccb₂, events', hrun, hright', hshown'⟩ := ih hfollows₁ (hmeets.2 _ hhandle)
    refine ⟨ccb₂, events ++ events', ?_, List.forall_mem_append.mpr ⟨hright, hright'⟩, ?_⟩
    · rw [run, hhandle, Option.bind_some, hrun]
      rfl
    · rw [List.filter_append, hshown, hshown', planned]

/-- **Redirection tries each contact once**, in every run whose calls all meet the condition. -/
theorem redirects_of_meets (calls : List Call) (h : AllMeet {} calls) : Ccb.Redirects {} .fresh calls :=
  run_spec (show Ccb.Follows {} .fresh from ⟨rfl, rfl⟩) h

/-- The host of the only location is not found. -/
theorem redirects_notFound :
    Ccb.Redirects {} .fresh [.redirected 302 (some ⟨[.sip], by decide, by decide⟩) fun _ => .dnsFailed] :=
  redirects_of_meets _ ⟨fun _ _ _ hc => by cases hc; exact ⟨.inl rfl, fun _ => rfl⟩, fun _ _ => trivial⟩

/-- A list that has only a `tel` URL is read behind its end. -/
theorem not_redirects : ¬ ∀ calls, Ccb.Redirects {} .fresh calls := by
  intro h
  obtain ⟨ccb, events, hrun, hright, -⟩ :=
    h [.redirected 302 (some ⟨[.tel], by decide, by decide⟩) fun _ => .inviteSent]
  obtain rfl : _ = events := congrArg Prod.snd (Option.some.inj hrun)
  exact absurd (hright (.reads 1 1) (by decide)) (Nat.lt_irrefl 1)

end Sip.Redirect
