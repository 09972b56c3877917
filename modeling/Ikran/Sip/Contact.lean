import Ikran.Lib.Insertion
import Ikran.Sip.ContactParams

/-!
# Contact headers

The reader of a Contact header, of `ccsip_pmh.c`. It reads locations one by one, each with its parameters in one
structure that is never cleared, and inserts each location in front of the first one with a lower q value.

The parser of `tel` URLs and the check for an IPv6 address are parameters, as for SIP URLs.
-/

namespace Sip

open CStr Insertion

/-! ## Locations -/

/-- `sipLocation_t`, without the fields for its memory and its tag. -/
structure SipLocation (TelUrl : Type) where
  name : Option CStr
  genUrl : GenUrl ⊕ TelUrl

/-- `parse_display_name`: the name up to the quote that ends it, and the text from the bracket on. The first argument
is the character in front. -/
def parseDisplayName : Char → CStr → Option (CStr × CStr)
  | _, [] => none
  | before, c :: s =>
    if c = '"' ∧ before ≠ '\\' then
      if (skipLws s).peek = '<' then some ([], skipLws s) else none
    else (parseDisplayName c s).map fun (name, leftBracket) => (c :: name, leftBracket)

/-- A location of a Contact header: its place among those that are read, and its parameters. -/
structure ContactEntry (TelUrl : Type) where
  id : ℕ
  location : SipLocation TelUrl
  params : ContactParams

/-- `strcmp (s1, s2) > 0`. -/
def strcmpGt : CStr → CStr → Bool
  | [], _ => false
  | _ :: _, [] => true
  | c :: s, d :: t => if c = d then strcmpGt s t else d < c

/-- The comparison of q values. -/
def higherQval (p p' : ContactParams) : Bool := strcmpGt (p.qval.getD []) (p'.qval.getD [])

/-- The text in front of the first comma. -/
def upToComma (s : CStr) : CStr := s.takeWhile (· ≠ ',')

/-- The parameters when the comma behind them is overwritten, which ends the q value. -/
def ContactParams.cut (params : ContactParams) : ContactParams := { params with qval := params.qval.map upToComma }

section

variable (inetPton6 : CStr → Bool) {TelUrl : Type} (parseTelUrl : CStr → Option TelUrl)

/-- The part of `sippmh_parse_nameaddr_or_addrspec` for an address in brackets. -/
def parseNameaddr (name leftBracket : CStr) : Option (SipLocation TelUrl) × Option CStr :=
  let addrSpec : CStr := leftBracket.tail
  if '>' ∈ addrSpec then
    let more := skipLws (addrSpec.dropWhile (· ≠ '>')).tail
    match sippmhParseUrl inetPton6 parseTelUrl (addrSpec.takeWhile (· ≠ '>')) with
    | none => (none, some more)
    | some genUrl => (some ⟨some name, genUrl⟩, some more)
  else (none, none)

/-- A character that ends an address without brackets. -/
def endsAddrspec (c : Char) : Bool := c = '?' || c = ';'

/-- The part of `sippmh_parse_nameaddr_or_addrspec` for an address without brackets, in front of a comma or of the
end. -/
def parseAddrspec (locPtr : CStr) (comma : Option CStr) : Option (SipLocation TelUrl) × Option CStr :=
  let text := textUpTo locPtr comma
  let addrSpec := text.takeWhile fun c => !endsAddrspec c
  let more := if text.any endsAddrspec then some (locPtr.drop addrSpec.length) else comma
  match sippmhParseUrl inetPton6 parseTelUrl addrSpec with
  -- the character that ends the address is not written back
  | none => (none, more.map fun _ => [])
  | some genUrl => (some ⟨none, genUrl⟩, more)

/-- `sippmh_parse_nameaddr_or_addrspec`, for the text of its caller and both forms of an address: the location, and
`*more_ptr`. -/
def sippmhParseNameaddrOrAddrspec (locPtr : CStr) : Option (SipLocation TelUrl) × Option CStr :=
  if locPtr.peek = '"' then
    match parseDisplayName '"' locPtr.tail with
    | none => (none, none)
    | some (name, leftBracket) => parseNameaddr inetPton6 parseTelUrl name leftBracket
  else
    match strpbrk locPtr ",<" with
    | none => parseAddrspec inetPton6 parseTelUrl locPtr none
    | some separator =>
      if separator.peek = ',' then parseAddrspec inetPton6 parseTelUrl locPtr (some separator)
      else parseNameaddr inetPton6 parseTelUrl (textUpTo locPtr (some separator)) separator

def atComma (p : Option CStr) : Bool := p.map peek = some ','

/-- A pointer that is null or at the end of the text. -/
def atEnd (p : Option CStr) : Bool := p.all List.isEmpty

/-- The comparison when a location is inserted. -/
def higherEntry (e e' : ContactEntry TelUrl) : Bool := higherQval e.params e'.params

/-- The q value of a location ends at the comma that is overwritten. -/
def ContactEntry.cut (e : ContactEntry TelUrl) : ContactEntry TelUrl := { e with params := e.params.cut }

/-- The q values of all locations end at the comma that is overwritten. -/
def cutEntries (locations : List (ContactEntry TelUrl)) : List (ContactEntry TelUrl) :=
  locations.map ContactEntry.cut

/-- The loop of `sippmh_parse_contact`, with the fuel for as many locations. The arguments are the pointer into the
text, the structure for the parameters and the locations. -/
def contactLoop : ℕ → CStr → ContactParams → List (ContactEntry TelUrl) → Option (List (ContactEntry TelUrl))
  | 0, _, _, _ => none
  | fuel + 1, contact, params, locations =>
    match sippmhParseNameaddrOrAddrspec inetPton6 parseTelUrl contact with
    | (none, more) =>
      if atComma more then
        if locations.length = sipMaxLocations then some locations
        else contactLoop fuel (skipLws (more.getD []).tail) params locations
      else none
    | (some location, more) =>
      if atEnd more then some (locations ++ [⟨locations.length, location, {}⟩])
      else
        let contact := more.getD []
        let params := { params with qval := some [] }
        let (params, contact) : ContactParams × Option CStr :=
          if contact.peek = ';' then sippmhParseContactParams contact.tail { params with flags := 0 }
          else (params, some contact)
        -- without parameters the q value is empty, and the location is inserted at the end
        let locations := insertAbove higherEntry ⟨locations.length, location, params⟩ locations
        if atComma contact then
          if locations.length = sipMaxLocations then some (cutEntries locations)
          else contactLoop fuel (skipLws (contact.getD []).tail) params (cutEntries locations)
        else if atEnd contact then some locations
        else none

def sippmhParseContact (inputContact : CStr) : Option (List (ContactEntry TelUrl)) :=
  contactLoop inetPton6 parseTelUrl (inputContact.length + 1) inputContact {} []

/-! ## The locations that are read -/

/-- A location that the reader comes to: the text of its parameters, if a semicolon stands behind it, and whether it
stands at the end. -/
structure ContactReading (TelUrl : Type) where
  location : SipLocation TelUrl
  text : Option CStr
  last : Bool

/-- The pointer behind a location and its parameters. -/
def behindReading (contact : CStr) : Option CStr × Option CStr :=
  if contact.peek = ';' then (some contact.tail, (readContactParams contact.tail).2) else (none, some contact)

/-- The locations that the loop comes to, when the text is accepted, after some others. -/
def readingsLoop : ℕ → CStr → ℕ → Option (List (ContactReading TelUrl))
  | 0, _, _ => none
  | fuel + 1, contact, n =>
    match sippmhParseNameaddrOrAddrspec inetPton6 parseTelUrl contact with
    | (none, more) =>
      if atComma more then
        if n = sipMaxLocations then some [] else readingsLoop fuel (skipLws (more.getD []).tail) n
      else none
    | (some location, more) =>
      if atEnd more then some [⟨location, none, true⟩]
      else
        let (text, contact) := behindReading (more.getD [])
        if atComma contact then
          if n + 1 = sipMaxLocations then some [⟨location, text, false⟩]
          else
            (readingsLoop fuel (skipLws (contact.getD []).tail) (n + 1)).map fun rs => ⟨location, text, false⟩ :: rs
        else if atEnd contact then some [⟨location, text, false⟩]
        else none

/-- The locations that the reader comes to, when the text is accepted. -/
def contactReadings (inputContact : CStr) : Option (List (ContactReading TelUrl)) :=
  readingsLoop inetPton6 parseTelUrl (inputContact.length + 1) inputContact 0

end

section

variable {TelUrl : Type}

/-- The parameters that are stored with a location, in a structure with those of the location in front. -/
def ContactReading.paramsFrom (r : ContactReading TelUrl) (params : ContactParams) : ContactParams :=
  if r.last then {}
  else
    match r.text with
    | none => { params with qval := some [] }
    | some text => (sippmhParseContactParams text { params with qval := some [], flags := 0 }).1

/-- The locations with the parameters that are stored with them. -/
def contactItems : ContactParams → ℕ → List (ContactReading TelUrl) → List (ContactEntry TelUrl)
  | _, _, [] => []
  | params, n, r :: rs => ⟨n, r.location, r.paramsFrom params⟩ :: contactItems (r.paramsFrom params) (n + 1) rs

/-- The comparison when a location is inserted among others, whose q values have been cut. -/
def higherItem (e e' : ContactEntry TelUrl) : Bool := higherQval e.params e'.params.cut

theorem ContactParams.cut_cut (params : ContactParams) : params.cut.cut = params.cut := by
  have hidem : ∀ q : CStr, upToComma (upToComma q) = upToComma q := by
    intro q
    refine List.takeWhile_eq_self_iff.mpr fun c hc => ?_
    exact List.mem_takeWhile_imp (p := fun c => decide (c ≠ ',')) hc
  rw [cut, cut]
  cases params.qval with
  | none => rfl
  | some q => rw [Option.map_some, Option.map_some, hidem]

theorem insertAbove_cut (x : ContactEntry TelUrl) (l : List (ContactEntry TelUrl)) :
    insertAbove higherEntry x (cutEntries l) =
      cutEntries (l.takeWhile (!higherItem x ·)) ++ x :: cutEntries (l.dropWhile (!higherItem x ·)) := by
  have htake : (cutEntries l).takeWhile (!higherEntry x ·) = cutEntries (l.takeWhile (!higherItem x ·)) :=
    List.takeWhile_map
  have hdrop : (cutEntries l).dropWhile (!higherEntry x ·) = cutEntries (l.dropWhile (!higherItem x ·)) :=
    List.dropWhile_map
  rw [insertAbove, htake, hdrop]

theorem cutEntries_insertAbove (x : ContactEntry TelUrl) (l : List (ContactEntry TelUrl)) :
    cutEntries (insertAbove higherEntry x (cutEntries l)) = cutEntries (insertAbove higherItem x l) := by
  have hcut : ContactEntry.cut ∘ ContactEntry.cut = @ContactEntry.cut TelUrl := by
    funext e
    rw [Function.comp_apply, ContactEntry.cut, ContactEntry.cut, ContactParams.cut_cut]
  rw [insertAbove_cut, insertAbove]
  simp only [cutEntries, List.map_append, List.map_cons, List.map_map, hcut]

theorem insertAbove_of_cut {x : ContactEntry TelUrl} (hx : x.params.cut = x.params) (l : List (ContactEntry TelUrl)) :
    insertAbove higherEntry x (cutEntries l) = cutEntries (insertAbove higherItem x l) := by
  have hself : x.cut = x := by rw [ContactEntry.cut, hx]
  rw [insertAbove_cut, insertAbove, cutEntries, cutEntries, cutEntries, List.map_append, List.map_cons, hself]

theorem insertAbove_of_noQval {x : ContactEntry TelUrl} (hx : x.params.qval.getD [] = [])
    (l : List (ContactEntry TelUrl)) : insertAbove higherItem x l = l ++ [x] := by
  have hnot : ∀ e ∈ l, (!higherItem x e) = true := by
    intro e _
    rw [higherItem, higherQval, hx, strcmpGt]
    rfl
  rw [insertAbove, List.takeWhile_eq_self_iff.mpr hnot, List.dropWhile_eq_nil_iff.mpr hnot]

/-! ## The q values that are stored -/

theorem IsQvalue.comma_not_mem {v : CStr} (hv : IsQvalue v) : ',' ∉ v := by
  cases hv with
  | whole c hc =>
    rw [List.mem_singleton]
    rintro rfl
    rcases hc with h | h <;> exact absurd h (by decide)
  | zero digits hne hdigits =>
    simp only [List.mem_cons, not_or]
    exact ⟨by decide, by decide, fun hmem => absurd (hdigits ',' hmem) (by decide)⟩
  | one digits hne hdigits =>
    simp only [List.mem_cons, not_or]
    exact ⟨by decide, by decide, fun hmem => absurd (hdigits ',' hmem) (by decide)⟩

/-- The last of the parameters that are of one kind. -/
def lastOf {γ : Type} (f : ContactParam → Option γ) (params : List ContactParam) : Option γ :=
  params.reverse.findSome? f

theorem lastOf_concat {γ : Type} (f : ContactParam → Option γ) (params : List ContactParam) (p : ContactParam) :
    lastOf f (params ++ [p]) = (f p).or (lastOf f params) := by
  rw [lastOf, List.reverse_append, List.reverse_singleton, List.singleton_append, List.findSome?_cons]
  cases f p with
  | none => rw [Option.none_or]; rfl
  | some c => rfl

theorem exists_mem_of_lastOf {γ : Type} {f : ContactParam → Option γ} {params : List ContactParam} {c : γ}
    (h : lastOf f params = some c) : ∃ p ∈ params, f p = some c := by
  obtain ⟨p, hp, hfp⟩ := List.exists_of_findSome?_eq_some h
  exact ⟨p, List.mem_reverse.mp hp, hfp⟩

/-- The q value of a parameter, and the text that it goes on with. -/
def ContactParam.qval? : ContactParam → Option (CStr × CStr)
  | q value behind => some (value, behind)
  | _ => none

theorem qval_foldl_store (l : List ContactParam) (params : ContactParams) : (l.foldl ContactParam.store params).qval =
      ((lastOf ContactParam.qval? l).map fun q => q.1 ++ q.2).or params.qval := by
  induction l using List.reverseRecOn with
  | nil => rfl
  | append_singleton l p ih =>
    rw [List.foldl_append, List.foldl_cons, List.foldl_nil, lastOf_concat]
    cases p with
    | q value behind => rfl
    | action code => exact ih
    | seconds digits => exact ih
    | date text => exact ih
    | noDate => exact ih
    | newreg => exact ih
    | other => exact ih

theorem qval_paramsFrom (r : ContactReading TelUrl) (params : ContactParams) :
    (r.paramsFrom params).qval.getD [] = [] ∨ ∃ text v b, r.text = some text ∧ IsQvalue v ∧
      (b = [] ∨ (readContactParams text).2 = some b) ∧ (r.paramsFrom params).qval = some (v ++ b) := by
  rw [ContactReading.paramsFrom]
  split_ifs with hlast
  · exact .inl rfl
  · cases htext : r.text with
    | none => exact .inl rfl
    | some text =>
      dsimp only
      rw [sippmhParseContactParams_eq, qval_foldl_store]
      cases hq : lastOf ContactParam.qval? (readContactParams text).1 with
      | none => exact .inl rfl
      | some q =>
        obtain ⟨v, b⟩ := q
        obtain ⟨p, hp, hpq⟩ := exists_mem_of_lastOf hq
        cases p with
        | q value behind =>
          obtain ⟨rfl, rfl⟩ := by simpa [ContactParam.qval?] using hpq
          obtain ⟨hform, hbehind⟩ := qvalues_readContactParams hp
          exact .inr ⟨text, value, behind, rfl, hform, hbehind, rfl⟩
        | action code => cases hpq
        | seconds digits => cases hpq
        | date text => cases hpq
        | noDate => cases hpq
        | newreg => cases hpq
        | other => cases hpq

theorem cut_paramsFrom (r : ContactReading TelUrl) (params : ContactParams)
    (hend : ∀ text, r.text = some text → atEnd (readContactParams text).2 = true) :
    (r.paramsFrom params).cut = r.paramsFrom params := by
  have hcut : ∀ (p : ContactParams) (q : CStr), p.qval = some q → ',' ∉ q → p.cut = p := by
    intro p q hq hcomma
    have hself : upToComma q = q := by
      refine List.takeWhile_eq_self_iff.mpr fun c hc => ?_
      rw [decide_eq_true_eq]
      rintro rfl
      exact hcomma hc
    rw [ContactParams.cut, hq, Option.map_some, hself, ← hq]
  rcases qval_paramsFrom r params with hnil | ⟨text, v, b, htext, hv, hb, hqval⟩
  · cases hqval : (r.paramsFrom params).qval with
    | none =>
      rw [ContactParams.cut, hqval, Option.map_none, ← hqval]
    | some q =>
      rw [hqval, Option.getD_some] at hnil
      exact hcut _ q hqval (by rw [hnil]; exact List.not_mem_nil)
  · have hempty : b = [] := by
      rcases hb with hb | hb
      · exact hb
      · have hnil := hend text htext
        rw [hb] at hnil
        exact List.isEmpty_iff.mp hnil
    rw [hempty, List.append_nil] at hqval
    exact hcut _ v hqval hv.comma_not_mem

/-! ## The run of the reader -/

theorem length_cutEntries (l : List (ContactEntry TelUrl)) : (cutEntries l).length = l.length := List.length_map _

theorem length_insertAbove (x : ContactEntry TelUrl) (l : List (ContactEntry TelUrl)) :
    (insertAbove higherItem x l).length = l.length + 1 := (insertAbove_perm x l).length_eq

theorem paramsFrom_eq (location : SipLocation TelUrl) (contact : CStr) (params : ContactParams) :
    (if contact.peek = ';' then sippmhParseContactParams contact.tail { params with qval := some [], flags := 0 }
      else ({ params with qval := some [] }, some contact)) =
      ((⟨location, (behindReading contact).1, false⟩ : ContactReading TelUrl).paramsFrom params,
        (behindReading contact).2) := by
  rw [ContactReading.paramsFrom, if_neg Bool.false_ne_true, behindReading]
  split_ifs
  · dsimp only
    rw [sippmhParseContactParams_eq]
  · rfl

theorem behindReading_snd {contact text : CStr} (h : (behindReading contact).1 = some text) :
    (behindReading contact).2 = (readContactParams text).2 := by
  rw [behindReading] at h ⊢
  split_ifs at h ⊢
  rw [Option.some.inj h]

/-- **What the loop returns** are the locations with their parameters, inserted one by one. -/
theorem contactLoop_eq (inetPton6 : CStr → Bool) (parseTelUrl : CStr → Option TelUrl) (fuel : ℕ) (contact : CStr)
    (params : ContactParams) (l : List (ContactEntry TelUrl)) :
    contactLoop inetPton6 parseTelUrl fuel contact params (cutEntries l) =
      (readingsLoop inetPton6 parseTelUrl fuel contact l.length).map fun rs =>
        cutEntries ((contactItems params l.length rs).foldl (fun l x => insertAbove higherItem x l) l) := by
  induction fuel generalizing contact params l with
  | zero => rfl
  | succ fuel ih =>
    rw [contactLoop, readingsLoop]
    obtain ⟨location?, more⟩ := sippmhParseNameaddrOrAddrspec inetPton6 parseTelUrl contact
    cases location? with
    | none =>
      dsimp only
      rw [length_cutEntries]
      split_ifs
      · rfl
      · exact ih _ params l
      · rfl
    | some location =>
      dsimp only
      rw [length_cutEntries]
      by_cases hmore : atEnd more = true
      · rw [if_pos hmore, if_pos hmore, Option.map_some]
        have hnone : insertAbove higherItem ⟨l.length, location, {}⟩ l = l ++ [⟨l.length, location, {}⟩] :=
          insertAbove_of_noQval rfl l
        have hitems : contactItems params l.length [⟨location, none, true⟩] = [⟨l.length, location, {}⟩] := rfl
        rw [hitems, List.foldl_cons, List.foldl_nil, hnone, cutEntries, cutEntries, List.map_append]
        rfl
      · rw [if_neg hmore, if_neg hmore, paramsFrom_eq location (more.getD []) params]
        have hread := @behindReading_snd (more.getD [])
        generalize behindReading (more.getD []) = read at hread
        obtain ⟨text, rest⟩ := read
        dsimp only at hread ⊢
        have hitems : ∀ rs, (contactItems params l.length (⟨location, text, false⟩ :: rs)).foldl
            (fun l x => insertAbove higherItem x l) l =
              (contactItems ((⟨location, text, false⟩ : ContactReading TelUrl).paramsFrom params)
                (l.length + 1) rs).foldl (fun l x => insertAbove higherItem x l)
                (insertAbove higherItem ⟨l.length, location,
                  (⟨location, text, false⟩ : ContactReading TelUrl).paramsFrom params⟩ l) := fun rs => rfl
        by_cases hcomma : atComma rest = true
        · rw [if_pos hcomma, if_pos hcomma, (insertAbove_perm _ _).length_eq, List.length_cons, length_cutEntries,
            cutEntries_insertAbove]
          split_ifs
          · rw [Option.map_some, hitems]
            rfl
          · rw [ih, length_insertAbove, Option.map_map]
            rfl
        · rw [if_neg hcomma, if_neg hcomma]
          by_cases hend : atEnd rest = true
          · have hcut := cut_paramsFrom (⟨location, text, false⟩ : ContactReading TelUrl) params fun t ht => by
              rw [← hread ht]
              exact hend
            rw [if_pos hend, if_pos hend, Option.map_some, hitems, insertAbove_of_cut hcut]
            rfl
          · rw [if_neg hend, if_neg hend]
            rfl

/-- **What the reader returns** are the locations that it comes to, inserted one by one. -/
theorem sippmhParseContact_eq (inetPton6 : CStr → Bool) (parseTelUrl : CStr → Option TelUrl) (inputContact : CStr) :
    sippmhParseContact inetPton6 parseTelUrl inputContact =
      (contactReadings inetPton6 parseTelUrl inputContact).map fun rs =>
        cutEntries (insertAll higherItem (contactItems {} 0 rs)) :=
  contactLoop_eq inetPton6 parseTelUrl (inputContact.length + 1) inputContact {} []

/-- What holds of no reading, of one, and of one in front of others holds of the readings of the loop. -/
theorem readingsLoop_induction {inetPton6 : CStr → Bool} {parseTelUrl : CStr → Option TelUrl}
    {motive : ℕ → List (ContactReading TelUrl) → Prop} (hnil : ∀ n, motive n [])
    (hlast : ∀ n location, motive n [⟨location, none, true⟩])
    (hone : ∀ n location contact, atComma (behindReading contact).2 = true ∨ atEnd (behindReading contact).2 = true →
        motive n [⟨location, (behindReading contact).1, false⟩])
    (hcons : ∀ n location contact rs, atComma (behindReading contact).2 = true → n + 1 ≠ sipMaxLocations →
      motive (n + 1) rs → motive n (⟨location, (behindReading contact).1, false⟩ :: rs))
    {fuel : ℕ} {contact : CStr} {n : ℕ} {rs : List (ContactReading TelUrl)}
    (h : readingsLoop inetPton6 parseTelUrl fuel contact n = some rs) : motive n rs := by
  induction fuel generalizing contact n rs with
  | zero => cases h
  | succ fuel ih =>
    rw [readingsLoop] at h
    generalize sippmhParseNameaddrOrAddrspec inetPton6 parseTelUrl contact = read at h
    obtain ⟨location?, more⟩ := read
    cases location? with
    | none =>
      dsimp only at h
      split_ifs at h
      · obtain rfl := Option.some.inj h
        exact hnil n
      · exact ih h
    | some location =>
      dsimp only at h
      split_ifs at h with hmore hcomma hfull hend
      · obtain rfl := Option.some.inj h
        exact hlast n location
      · obtain rfl := Option.some.inj h
        exact hone n location _ (.inl hcomma)
      · obtain ⟨rs', hrs', rfl⟩ := Option.map_eq_some_iff.mp h
        exact hcons n location _ rs' hcomma hfull (ih hrs')
      · obtain rfl := Option.some.inj h
        exact hone n location _ (.inr hend)

theorem length_readingsLoop {inetPton6 : CStr → Bool} {parseTelUrl : CStr → Option TelUrl} {fuel : ℕ} {contact : CStr}
    {n : ℕ} (hn : n < sipMaxLocations) {rs : List (ContactReading TelUrl)}
    (h : readingsLoop inetPton6 parseTelUrl fuel contact n = some rs) : n + rs.length ≤ sipMaxLocations := by
  refine readingsLoop_induction (motive := fun n rs => n < sipMaxLocations → n + rs.length ≤ sipMaxLocations)
    (fun n hn => Nat.le_of_lt hn) (fun n _ hn => hn) (fun n _ _ _ hn => hn) (fun n _ _ rs _ hfull ih hn => ?_) h hn
  have hle := ih (by omega)
  rw [List.length_cons]
  omega

theorem length_contactItems (params : ContactParams) (n : ℕ) (rs : List (ContactReading TelUrl)) :
    (contactItems params n rs).length = rs.length := by
  induction rs generalizing params n with
  | nil => rfl
  | cons r rs ih => rw [contactItems, List.length_cons, List.length_cons, ih]

/-- **At most six locations are returned.** -/
theorem length_le_of_sippmhParseContact {inetPton6 : CStr → Bool} {parseTelUrl : CStr → Option TelUrl} {s : CStr}
    {locations : List (ContactEntry TelUrl)} (h : sippmhParseContact inetPton6 parseTelUrl s = some locations) :
    locations.length ≤ sipMaxLocations := by
  rw [sippmhParseContact_eq] at h
  obtain ⟨rs, hrs, rfl⟩ := Option.map_eq_some_iff.mp h
  have hle := length_readingsLoop (by decide) hrs
  rw [length_cutEntries, (insertAll_perm _).length_eq, length_contactItems]
  omega

end

end Sip
