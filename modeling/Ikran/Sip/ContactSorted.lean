import Ikran.Sip.ContactQvalues

/-!
# Sorted Contact headers

What is stored with a location of a Contact header are the parameters that have been read so far, those of earlier
locations among them. The parameters that belong to a location are those in its own text, up to the comma that ends
it outside of quotes.
-/

namespace Sip

open CStr Insertion

/-- The text of the last q value, empty when there is none. -/
def qText (params : List ContactParam) : CStr := ((lastOf ContactParam.qval? params).map Prod.fst).getD []

/-- The text of the last q value with what it goes on with. -/
def qRaw (params : List ContactParam) : CStr := ((lastOf ContactParam.qval? params).map fun q => q.1 ++ q.2).getD []

def ContactParam.action? : ContactParam → Option ℕ
  | action code => some code
  | _ => none

/-- The last action, zero when there is none. -/
def actionCode (params : List ContactParam) : ℕ := (lastOf ContactParam.action? params).getD 0

/-- A parameter changes a time, which is a number of seconds or a date. -/
def expiryStep (expiry : ℕ × Option CStr) : ContactParam → ℕ × Option CStr
  | .seconds digits => (digitsVal digits, none)
  | .date text => (0, some text)
  | .noDate => (expiry.1, none)
  | _ => expiry

/-- The time that is written. -/
def expiry (params : List ContactParam) : ℕ × Option CStr := params.foldl expiryStep (0, none)

/-- A parameter changes the time that is stored, of which the seconds have 32 bits. -/
def storedExpiryStep (expiry : UInt32 × Option CStr) : ContactParam → UInt32 × Option CStr
  | .seconds digits => (UInt32.ofNat (strtoul digits).1, none)
  | .date text => (0, some text)
  | .noDate => (expiry.1, none)
  | _ => expiry

def storedExpiry (params : List ContactParam) : UInt32 × Option CStr := params.foldl storedExpiryStep (0, none)

/-- The flag of a list with the parameter `X-cisco-newreg`. -/
def newregFlag (params : List ContactParam) : UInt32 :=
  if .newreg ∈ params then sipContactParmXCiscoNewreg else 0

/-- A structure holds exactly the parameters that are written: the last q value, action and time, and the flag, or
their defaults. -/
structure Exact (own : List ContactParam) (params : ContactParams) : Prop where
  qval : params.qval.getD [] = qText own
  action : params.action = actionCode own
  expires : params.expires.toNat = (expiry own).1
  expiresGmt : params.expiresGmt = (expiry own).2
  flags : params.flags = newregFlag own

/-- The text of the parameters that belong to a location: up to a comma that stands in no quotes. The second argument
is the character in front. -/
def ownText : Bool → Char → CStr → CStr
  | _, _, [] => []
  | quoted, before, c :: s =>
    if c = '"' ∧ before ≠ '\\' then c :: ownText (!quoted) c s
    else if c = ',' ∧ quoted = false then []
    else c :: ownText quoted c s

section

variable {TelUrl : Type}

namespace ContactReading

/-- The parameters in a text that belongs to a location. -/
def paramsIn (r : ContactReading TelUrl) (cut : CStr → CStr) : List ContactParam :=
  if r.last then [] else r.text.elim [] fun text => (readContactParams (cut text)).1

/-- The parameters that belong to a location. -/
def own (r : ContactReading TelUrl) : List ContactParam := r.paramsIn (ownText false ';')

/-- The parameters that are read for a location. -/
def inPlace (r : ContactReading TelUrl) : List ContactParam := r.paramsIn id

/-- The parameters that have been read with a location, after those of others. -/
def soFar (front : List (ContactReading TelUrl)) (r : ContactReading TelUrl) : List ContactParam :=
  front.flatMap inPlace ++ r.inPlace

/-- The parameters of the last location with a semicolon behind it. -/
def flagged (front : List (ContactReading TelUrl)) (r : ContactReading TelUrl) : List ContactParam :=
  ((front ++ [r]).reverse.find? fun r => r.text.isSome).elim [] inPlace

/-- What has been read so far gives the parameters of a location: its q value, the last action and time of all
locations up to it, and the flag of the last one with parameters. -/
structure Keeps (front : List (ContactReading TelUrl)) (r : ContactReading TelUrl) : Prop where
  qval : qText r.inPlace = qText r.own
  action : actionCode (soFar front r) = actionCode r.own
  expires : (storedExpiry (soFar front r)).1.toNat = (expiry r.own).1
  expiresGmt : (storedExpiry (soFar front r)).2 = (expiry r.own).2
  flags : newregFlag (flagged front r) = newregFlag r.own

end ContactReading

/-- The locations that are returned are those that are read, each with its own parameters, at most six of them, by
decreasing q value and those of the same q value in the order of the header. -/
structure SortedOwn (rs : List (ContactReading TelUrl)) (locations : List (ContactEntry TelUrl)) : Prop where
  length_le : locations.length ≤ sipMaxLocations
  ids : (locations.map ContactEntry.id).Perm (List.range rs.length)
  own : ∀ e ∈ locations, ∃ r, rs[e.id]? = some r ∧ e.location = r.location ∧ Exact r.own e.params
  ordered : locations.Pairwise (Before ContactEntry.rank fun e e' => e.id < e'.id)

/-! ## What is stored -/

/-- A structure holds the action and the time of the parameters that have been read. -/
structure Stored (seen : List ContactParam) (params : ContactParams) : Prop where
  action : params.action = actionCode seen
  expiry : (params.expires, params.expiresGmt) = storedExpiry seen

variable {params : ContactParams}

theorem Stored.store {seen : List ContactParam} (h : Stored seen params) (p : ContactParam) :
    Stored (seen ++ [p]) (p.store params) := by
  have hexpiry : storedExpiry (seen ++ [p]) = storedExpiryStep (params.expires, params.expiresGmt) p := by
    rw [storedExpiry, List.foldl_append, ← storedExpiry, ← h.expiry]
    rfl
  have haction : actionCode (seen ++ [p]) = (p.action?).getD params.action := by
    rw [actionCode, lastOf_concat, h.action, actionCode]
    cases p.action? with
    | none => rw [Option.none_or]; rfl
    | some code => rfl
  refine ⟨?_, ?_⟩
  · rw [haction]
    cases p <;> rfl
  · rw [hexpiry]
    cases p <;> rfl

theorem Stored.foldl {seen : List ContactParam} (h : Stored seen params)
    (l : List ContactParam) : Stored (seen ++ l) (l.foldl ContactParam.store params) := by
  induction l generalizing seen params with
  | nil =>
    rw [List.append_nil]
    exact h
  | cons p l ih =>
    have hrest := ih (h.store p)
    rwa [List.append_assoc] at hrest

theorem flags_foldl_store (l : List ContactParam) (params : ContactParams) (h : params.flags = 0) :
    (l.foldl ContactParam.store params).flags = newregFlag l := by
  induction l using List.reverseRecOn with
  | nil => exact h
  | append_singleton l p ih =>
    have hor : newregFlag l ||| sipContactParmXCiscoNewreg = sipContactParmXCiscoNewreg := by
      rw [newregFlag]
      split_ifs <;> rfl
    rw [List.foldl_append, List.foldl_cons, List.foldl_nil]
    have hsame : p ≠ .newreg → newregFlag (l ++ [p]) = newregFlag l := by
      intro hp
      simp [newregFlag, Ne.symm hp]
    cases p with
    | newreg =>
      have hnew : newregFlag (l ++ [.newreg]) = sipContactParmXCiscoNewreg := by simp [newregFlag]
      rw [hnew, ← hor, ← ih]
      rfl
    | q value behind => exact ih.trans (hsame nofun).symm
    | action code => exact ih.trans (hsame nofun).symm
    | seconds digits => exact ih.trans (hsame nofun).symm
    | date text => exact ih.trans (hsame nofun).symm
    | noDate => exact ih.trans (hsame nofun).symm
    | other => exact ih.trans (hsame nofun).symm

/-! ## The structure of the reader -/

namespace ContactReading

/-- A reading is accepted when what stands behind its parameters is the end or a comma. -/
def Accepted (r : ContactReading TelUrl) : Prop :=
  ∀ text, r.text = some text → atComma (readContactParams text).2 = true ∨ atEnd (readContactParams text).2 = true

theorem paramsFrom_eq (r : ContactReading TelUrl) (hlast : r.last = false) (params : ContactParams) :
    r.paramsFrom params = r.inPlace.foldl ContactParam.store
      (if r.text.isSome then { params with qval := some [], flags := 0 } else { params with qval := some [] }) := by
  rw [paramsFrom, inPlace, paramsIn, hlast, if_neg Bool.false_ne_true, if_neg Bool.false_ne_true]
  cases r.text with
  | none => rfl
  | some text =>
    rw [Option.elim_some, Option.isSome_some, if_pos rfl]
    exact congrArg Prod.fst (sippmhParseContactParams_eq text _)

theorem stored_paramsFrom (r : ContactReading TelUrl) (hlast : r.last = false) {seen : List ContactParam}
    {params : ContactParams} (h : Stored seen params) : Stored (seen ++ r.inPlace) (r.paramsFrom params) := by
  rw [r.paramsFrom_eq hlast]
  refine Stored.foldl ?_ r.inPlace
  split_ifs
  · exact ⟨h.action, h.expiry⟩
  · exact ⟨h.action, h.expiry⟩

theorem flags_paramsFrom (r : ContactReading TelUrl) (hlast : r.last = false) (params : ContactParams) :
    (r.paramsFrom params).flags = if r.text.isSome then newregFlag r.inPlace else params.flags := by
  rw [r.paramsFrom_eq hlast]
  split_ifs with htext
  · exact flags_foldl_store _ _ rfl
  · have hnone : r.inPlace = [] := by
      rw [inPlace, paramsIn, Option.not_isSome_iff_eq_none.mp htext, Option.elim_none, ite_self]
    rw [hnone]
    rfl

theorem rawQval_paramsFrom (r : ContactReading TelUrl) (params : ContactParams) :
    (r.paramsFrom params).qval.getD [] = qRaw r.inPlace := by
  cases hlast : r.last with
  | true =>
    rw [paramsFrom, inPlace, paramsIn, if_pos hlast, if_pos hlast]
    rfl
  | false =>
    rw [r.paramsFrom_eq hlast, qval_foldl_store, qRaw]
    cases lastOf ContactParam.qval? r.inPlace with
    | some q => rfl
    | none =>
      rw [Option.map_none, Option.none_or]
      split_ifs <;> rfl

theorem qval_cut_paramsFrom (r : ContactReading TelUrl) (hr : r.Accepted) (params : ContactParams) :
    (r.paramsFrom params).cut.qval.getD [] = qText r.inPlace := by
  have hraw := r.rawQval_paramsFrom params
  have hcut : (r.paramsFrom params).cut.qval.getD [] = upToComma ((r.paramsFrom params).qval.getD []) := by
    rw [ContactParams.cut]
    cases (r.paramsFrom params).qval with
    | none => rfl
    | some q => rfl
  rw [hcut, hraw, qRaw, qText]
  cases hq : lastOf ContactParam.qval? r.inPlace with
  | none => rfl
  | some q =>
    obtain ⟨v, b⟩ := q
    rw [Option.map_some, Option.map_some, Option.getD_some, Option.getD_some]
    obtain ⟨param, hparam, hvalue⟩ := exists_mem_of_lastOf hq
    rw [inPlace, paramsIn] at hparam
    split_ifs at hparam
    · cases hparam
    cases htext : r.text with
    | none =>
      rw [htext] at hparam
      cases hparam
    | some text =>
      rw [htext, Option.elim_some] at hparam
      cases param with
      | q value behind =>
        obtain ⟨rfl, rfl⟩ := by simpa [ContactParam.qval?] using hvalue
        obtain ⟨hform, hbehind⟩ := qvalues_readContactParams hparam
        refine upToComma_append hform ?_
        rcases hbehind with rfl | hbehind
        · exact .inl rfl
        · rcases hr text htext with hcomma | hend
          · rw [id_eq] at hbehind
            rw [hbehind, atComma, Option.map_some, decide_eq_true_eq, Option.some_inj] at hcomma
            exact .inr ⟨behind.tail, cons_tail_of_peek hcomma (by decide)⟩
          · rw [id_eq] at hbehind
            rw [hbehind] at hend
            exact .inl (List.isEmpty_iff.mp hend)
      | action code => cases hvalue
      | seconds digits => cases hvalue
      | date text => cases hvalue
      | noDate => cases hvalue
      | newreg => cases hvalue
      | other => cases hvalue

end ContactReading

/-- The structure after some locations. -/
def paramsAfter (front : List (ContactReading TelUrl)) : ContactParams := front.foldl (fun p r => r.paramsFrom p) {}

variable {front : List (ContactReading TelUrl)}

theorem stored_paramsAfter (hfront : ∀ r ∈ front, r.last = false) :
    Stored (front.flatMap ContactReading.inPlace) (paramsAfter front) := by
  induction front using List.reverseRecOn with
  | nil => exact ⟨rfl, rfl⟩
  | append_singleton front r ih =>
    have hr := hfront r (List.mem_append_right _ List.mem_cons_self)
    have hstored := r.stored_paramsFrom hr (ih fun r' hr' => hfront r' (List.mem_append_left _ hr'))
    rw [paramsAfter, List.foldl_append, List.flatMap_append, List.flatMap_singleton]
    exact hstored

theorem flags_paramsAfter (hfront : ∀ r ∈ front, r.last = false) : (paramsAfter front).flags =
      newregFlag ((front.reverse.find? fun r => r.text.isSome).elim [] ContactReading.inPlace) := by
  induction front using List.reverseRecOn with
  | nil => rfl
  | append_singleton front r ih =>
    have hr := hfront r (List.mem_append_right _ List.mem_cons_self)
    have hafter : paramsAfter (front ++ [r]) = r.paramsFrom (paramsAfter front) := by
      rw [paramsAfter, List.foldl_append]
      rfl
    rw [hafter, r.flags_paramsFrom hr, ih fun r' hr' => hfront r' (List.mem_append_left _ hr'), List.reverse_append,
      List.reverse_singleton, List.singleton_append, List.find?_cons]
    cases r.text.isSome <;> rfl

/-- **What is stored with a location is exact** when what has been read so far gives its parameters. -/
theorem exact_paramsFrom_iff (hfront : ∀ r ∈ front, r.last = false)
    {r : ContactReading TelUrl} (hlast : r.last = false) (hr : r.Accepted) :
    Exact r.own (r.paramsFrom (paramsAfter front)).cut ↔ r.Keeps front := by
  have hstored := r.stored_paramsFrom hlast (stored_paramsAfter hfront)
  have hflags : (r.paramsFrom (paramsAfter front)).flags = newregFlag (ContactReading.flagged front r) := by
    have hall : ∀ r' ∈ front ++ [r], r'.last = false := by
      intro r' hr'
      rcases List.mem_append.mp hr' with h | h
      · exact hfront r' h
      · exact List.mem_singleton.mp h ▸ hlast
    have hafter := flags_paramsAfter hall
    rw [paramsAfter, List.foldl_append] at hafter
    exact hafter
  have haction : (r.paramsFrom (paramsAfter front)).action = actionCode (ContactReading.soFar front r) := hstored.action
  have hexpires : (r.paramsFrom (paramsAfter front)).expires = (storedExpiry (ContactReading.soFar front r)).1 :=
    congrArg Prod.fst hstored.expiry
  have hgmt : (r.paramsFrom (paramsAfter front)).expiresGmt = (storedExpiry (ContactReading.soFar front r)).2 :=
    congrArg Prod.snd hstored.expiry
  have hqval := r.qval_cut_paramsFrom hr (paramsAfter front)
  constructor
  · intro h
    exact ⟨hqval ▸ h.qval, haction ▸ h.action, hexpires ▸ h.expires, hgmt ▸ h.expiresGmt, hflags ▸ h.flags⟩
  · intro h
    exact ⟨hqval.trans h.qval, haction.trans h.action, (congrArg UInt32.toNat hexpires).trans h.expires,
      hgmt.trans h.expiresGmt, hflags.trans h.flags⟩

/-! ## The locations that are returned -/

variable {rs : List (ContactReading TelUrl)}

theorem mem_contactItems_iff {n : ℕ} {x : ContactEntry TelUrl} :
    x ∈ contactItems params n rs ↔ ∃ front r back, rs = front ++ r :: back ∧
      x = ⟨n + front.length, r.location, r.paramsFrom (front.foldl (fun p r => r.paramsFrom p) params)⟩ := by
  induction rs generalizing params n with
  | nil => exact iff_of_false List.not_mem_nil fun ⟨front, r, back, h, _⟩ => by cases front <;> cases h
  | cons r rs ih =>
    rw [contactItems, List.mem_cons, ih]
    constructor
    · rintro (rfl | ⟨front, r', back, rfl, rfl⟩)
      · exact ⟨[], r, rs, rfl, rfl⟩
      · refine ⟨r :: front, r', back, rfl, ?_⟩
        rw [List.length_cons, List.foldl_cons, Nat.add_right_comm, Nat.add_assoc]
    · rintro ⟨front, r', back, h, rfl⟩
      cases front with
      | nil =>
        obtain ⟨rfl, rfl⟩ := List.cons.inj h
        exact .inl rfl
      | cons r'' front =>
        obtain ⟨rfl, rfl⟩ := List.cons.inj h
        refine .inr ⟨front, r', back, rfl, ?_⟩
        rw [List.length_cons, List.foldl_cons, Nat.add_right_comm, Nat.add_assoc]

theorem map_id_contactItems (params : ContactParams) (n : ℕ) (rs : List (ContactReading TelUrl)) :
    (contactItems params n rs).map ContactEntry.id = List.range' n rs.length := by
  induction rs generalizing params n with
  | nil => rfl
  | cons r rs ih => rw [contactItems, List.map_cons, ih, List.length_cons, List.range'_succ]

/-- Only the last location stands at the end. -/
def OnlyLast (rs : List (ContactReading TelUrl)) : Prop := ∀ r ∈ rs.dropLast, r.last = false

/-- **When each location has its own parameters.** -/
theorem own_contactItems_iff (hlast : OnlyLast rs) (hrs : ∀ r ∈ rs, r.Accepted) {locations : List (ContactEntry TelUrl)}
    (hlocations : locations.Perm (cutEntries (contactItems {} 0 rs))) :
    (∀ e ∈ locations, ∃ r, rs[e.id]? = some r ∧ e.location = r.location ∧ Exact r.own e.params) ↔
      ∀ front r back, rs = front ++ r :: back → r.last = false → r.Keeps front := by
  have hmem : ∀ e, e ∈ locations ↔ ∃ front r back, rs = front ++ r :: back ∧
      e = ⟨front.length, r.location, (r.paramsFrom (paramsAfter front)).cut⟩ := by
    intro e
    rw [hlocations.mem_iff, cutEntries, List.mem_map]
    constructor
    · rintro ⟨x, hx, rfl⟩
      obtain ⟨front, r, back, hsplit, rfl⟩ := mem_contactItems_iff.mp hx
      exact ⟨front, r, back, hsplit, by rw [Nat.zero_add]; rfl⟩
    · rintro ⟨front, r, back, hsplit, rfl⟩
      exact ⟨_, mem_contactItems_iff.mpr ⟨front, r, back, hsplit, rfl⟩, by rw [Nat.zero_add]; rfl⟩
  have hplace : ∀ (front back : List (ContactReading TelUrl)) (r : ContactReading TelUrl),
      (front ++ r :: back)[front.length]? = some r := by
    intro front back r
    rw [List.getElem?_append_right le_rfl, Nat.sub_self, List.getElem?_cons_zero]
  have hfront : ∀ (front back : List (ContactReading TelUrl)) (r : ContactReading TelUrl), rs = front ++ r :: back →
      ∀ r' ∈ front, r'.last = false := by
    intro front back r hsplit r' hr'
    refine hlast r' ?_
    rw [hsplit, List.dropLast_append_cons]
    exact List.mem_append_left _ hr'
  constructor
  · intro h front r back hsplit hr
    obtain ⟨r', hr', -, hexact⟩ := h _ ((hmem _).mpr ⟨front, r, back, hsplit, rfl⟩)
    rw [hsplit, hplace, Option.some_inj] at hr'
    rw [← hr'] at hexact
    exact (exact_paramsFrom_iff (hfront front back r hsplit) hr (hrs r (by simp [hsplit]))).mp hexact
  · intro h e he
    obtain ⟨front, r, back, hsplit, rfl⟩ := (hmem e).mp he
    refine ⟨r, by rw [hsplit, hplace], rfl, ?_⟩
    cases hr : r.last with
    | false =>
      exact (exact_paramsFrom_iff (hfront front back r hsplit) hr (hrs r (by simp [hsplit]))).mpr
        (h front r back hsplit hr)
    | true =>
      -- the last location has neither parameters nor a structure of its own
      rw [ContactReading.own, ContactReading.paramsIn, ContactReading.paramsFrom, if_pos hr, if_pos hr]
      exact ⟨rfl, rfl, rfl, rfl, rfl⟩

/-- No location is above an earlier one with the same q value. -/
def TiesKept (rs : List (ContactReading TelUrl)) : Prop :=
  rs.Pairwise fun r r' =>
    qvalue (qText r.inPlace) = qvalue (qText r'.inPlace) → strcmpGt (qRaw r'.inPlace) (qText r.inPlace) = false

theorem pairwise_contactItems_iff (hrs : ∀ r ∈ rs, r.Accepted) (params : ContactParams) (n : ℕ) :
    (contactItems params n rs).Pairwise (fun e e' => e.cut.rank = e'.cut.rank → higherItem e' e = false) ↔
      TiesKept rs := by
  have hmap : ∀ (rs : List (ContactReading TelUrl)), (∀ r ∈ rs, r.Accepted) → ∀ (params : ContactParams) (n : ℕ),
      (contactItems params n rs).map (fun e => (e.params.qval.getD [], e.cut.params.qval.getD [])) =
        rs.map fun r => (qRaw r.inPlace, qText r.inPlace) := by
    intro rs
    induction rs with
    | nil => exact fun _ _ _ => rfl
    | cons r rs ih =>
      intro hrs params n
      rw [contactItems, List.map_cons, List.map_cons, ih fun r' hr' => hrs r' (List.mem_cons_of_mem r hr'),
        r.rawQval_paramsFrom, show (ContactEntry.cut ⟨n, r.location, r.paramsFrom params⟩).params =
          (r.paramsFrom params).cut from rfl, r.qval_cut_paramsFrom (hrs r List.mem_cons_self)]
  have hitems : (contactItems params n rs).Pairwise (fun e e' => e.cut.rank = e'.cut.rank → higherItem e' e = false) ↔
      ((contactItems params n rs).map fun e => (e.params.qval.getD [], e.cut.params.qval.getD [])).Pairwise
        fun q q' => qvalue q.2 = qvalue q'.2 → strcmpGt q'.1 q.2 = false := by
    rw [List.pairwise_map]
    exact Iff.rfl
  rw [hitems, hmap rs hrs, List.pairwise_map]
  exact Iff.rfl

/-- **When the locations are sorted.** -/
theorem ordered_contactItems_iff (hrs : ∀ r ∈ rs, r.Accepted) :
    (cutEntries (insertAll higherItem (contactItems {} 0 rs))).Pairwise
      (Before ContactEntry.rank fun e e' => e.id < e'.id) ↔ TiesKept rs := by
  have hqval := hasQval_of_mem_contactItems hrs {} 0
  have hids : (contactItems {} 0 rs).Pairwise fun e e' => e.id < e'.id := by
    have hrange := List.pairwise_lt_range' (s := 0) (n := rs.length)
    rw [← map_id_contactItems {} 0 rs, List.pairwise_map] at hrange
    exact hrange
  rw [cutEntries, List.pairwise_map, ← pairwise_contactItems_iff hrs {} 0]
  exact ordered_insertAll_iff (fun _ _ => Nat.lt_asymm) (respects_higherItem hqval) hids

theorem onlyLast_readingsLoop {inetPton6 : CStr → Bool} {parseTelUrl : CStr → Option TelUrl} {fuel : ℕ}
    {contact : CStr} {n : ℕ}
    (h : readingsLoop inetPton6 parseTelUrl fuel contact n = some rs) : OnlyLast rs := by
  have hsingle : ∀ r : ContactReading TelUrl, OnlyLast [r] := fun r r' hr' => by cases hr'
  refine readingsLoop_induction (motive := fun _ rs => OnlyLast rs) (fun _ r hr => by cases hr)
    (fun _ _ => hsingle _) (fun _ _ _ _ => hsingle _) (fun _ location contact rs _ _ ih r hr => ?_) h
  cases rs with
  | nil => cases hr
  | cons r' rs =>
    rw [List.dropLast_cons_cons] at hr
    rcases List.mem_cons.mp hr with rfl | hr
    · rfl
    · exact ih r hr

end

/-! ## Sorted Contact headers -/

section

variable (inetPton6 : CStr → Bool) {TelUrl : Type} (parseTelUrl : CStr → Option TelUrl)

/-- A Contact header that is accepted is sorted and keeps its parameters. -/
def ContactSorted (inputContact : CStr) : Prop :=
  ∀ locations, sippmhParseContact inetPton6 parseTelUrl inputContact = some locations →
    ∃ rs, contactReadings inetPton6 parseTelUrl inputContact = some rs ∧ SortedOwn rs locations

end

end Sip
