import Ikran.Dialplan.Language

/-!
# The bounds of the rewrite buffer

What `MatchDialTemplate` writes through `rewrite`, what it reads through the output cursor, and which
substitutions it looks at. `addbytes` adds what is written to the room instead of taking it away, so that
only the first piece of a text is cut to the buffer.

The lengths are small enough for the counters, which are `int`.
-/

namespace Dialplan

open CStr

/-- An access: bytes that are written from an offset on, with a terminator behind them, a byte that is read
through the output cursor, or a substitution that is looked at. -/
inductive Access
  | write (offset len : ℕ)
  | read (offset : ℤ)
  | sub (idx : ℤ)
  deriving DecidableEq

/-- An access is in bounds, after those before it: a write stays in the buffer, a byte that is read was
written, and a substitution is one. -/
def Access.Ok (rewritelen : ℕ) (before : List Access) : Access → Prop
  | .write offset len => offset + len < rewritelen
  | .read offset => ∃ start len, Access.write start len ∈ before ∧ (start : ℤ) ≤ offset ∧ offset < start + len
  | .sub idx => 0 ≤ idx ∧ idx < maxSubstitutions

/-- All accesses are in bounds, after some before them. -/
def TraceOk (rewritelen : ℕ) : List Access → List Access → Prop
  | _, [] => True
  | before, a :: tr => a.Ok rewritelen before ∧ TraceOk rewritelen (before ++ [a]) tr

variable {rewritelen : ℕ} {before : List Access}

theorem traceOk_append {tr tr' : List Access} : TraceOk rewritelen before (tr ++ tr') ↔
      TraceOk rewritelen before tr ∧ TraceOk rewritelen (before ++ tr) tr' := by
  induction tr generalizing before with
  | nil => simp [TraceOk]
  | cons a tr ih =>
    rw [List.cons_append, TraceOk, TraceOk, ih, List.append_assoc, List.singleton_append, and_assoc]

/-! ## The loop over the rewrite string -/

/-- What the loop does: it looks at a substitution, or puts out a piece. -/
inductive Event
  | sub (idx : ℤ)
  | put (input : CStr)

/-- `dotindex` and `dotsleft`. -/
structure DotState where
  dotindex : ℤ := -1
  dotsleft : ℕ := 0

/-- `subs` and `subslen` at an index. -/
def subAt (subs : List (CStr × ℕ)) (idx : ℤ) : CStr × ℕ := subs.getD idx.toNat ([], 0)

/-- The loop that looks for a substitution with characters left. It goes through the substitutions at most
once. -/
def seekDot (subs : List (CStr × ℕ)) : ℕ → DotState → DotState × List Event
  | 0, d => (d, [])
  | fuel + 1, d =>
    if d.dotsleft = 0 ∧ d.dotindex < (subs.length : ℤ) - 1 then
      let r := seekDot subs fuel { dotindex := d.dotindex + 1, dotsleft := (subAt subs (d.dotindex + 1)).2 }
      (r.1, .sub (d.dotindex + 1) :: r.2)
    else (d, [])

/-- The loop over the rewrite string of a template. -/
def rewriteEvents (dialed : CStr) (subs : List (CStr × ℕ)) : CStr → DotState → List Event
  | [], _ => []
  | ['%'], _ => []
  | '%' :: d :: prewrite, dots =>
    if d = 's' ∨ d = '0' then .put dialed :: rewriteEvents dialed subs prewrite dots
    else
      let idx : ℤ := (d.toNat : ℤ) - '1'.toNat
      if 0 ≤ idx ∧ idx ≤ (subs.length : ℤ) - 1 then
        .sub idx :: .put ((subAt subs idx).1.take (subAt subs idx).2) :: rewriteEvents dialed subs prewrite dots
      else .put [d] :: rewriteEvents dialed subs prewrite dots
  | '.' :: prewrite, dots =>
    let r := seekDot subs subs.length dots
    let sub := subAt subs r.1.dotindex
    r.2 ++
      if 0 < r.1.dotsleft then
        .sub r.1.dotindex :: .put ((sub.1.drop (sub.2 - r.1.dotsleft)).take 1) ::
          rewriteEvents dialed subs prewrite { r.1 with dotsleft := r.1.dotsleft - 1 }
      else rewriteEvents dialed subs prewrite r.1
  | c :: prewrite, dots => .put [c] :: rewriteEvents dialed subs prewrite dots

/-- How many bytes `addbytes` copies. -/
def bytesCopied (o : Output) (input : CStr) : ℕ := if o.room ≤ input.length then o.room - 1 else input.length

/-- The output behind the pieces that are put out. -/
def putAll (o : Output) (es : List Event) : Output :=
  es.foldl (fun o e => match e with
    | .sub _ => o
    | .put input => addbytes o input) o

/-- The accesses of the loop, from an output on. -/
def accesses : Output → List Event → List Access
  | _, [] => []
  | o, .sub idx :: es => .sub idx :: accesses o es
  | o, .put input :: es => .write o.written.length (bytesCopied o input) :: accesses (addbytes o input) es

/-- The accesses when a user mode is put behind what was written. The byte in front of the cursor is read, and
overwritten when it is a closing bracket. -/
def userAccesses (user : CStr) (o : Output) : List Access :=
  .read ((o.written.length : ℤ) - 1) ::
    if o.written.getLast? = some '>' then
      [.write (o.written.length - 1)
        (bytesCopied { written := o.written.dropLast, room := o.room - 1 } (user ++ ['>']))]
    else [.write o.written.length (bytesCopied o user)]

/-- What is put out for a template. -/
def templateEvents (dialed : CStr) (t : DialTemplate) (m : Matching) : List Event :=
  match t.rewrite with
  | [] => [.put dialed]
  | prewrite => rewriteEvents dialed m.subs prewrite {}

def userSuffix : UserMode → CStr
  | .phone => ";user=phone"
  | .ip => ";user=ip"
  | .unspec => []

/-- The accesses when the text of a template is put into the rewrite buffer. -/
def rewriteAccesses (rewritelen : ℕ) (dialed : CStr) (t : DialTemplate) (m : Matching) : List Access :=
  accesses { room := rewritelen } (templateEvents dialed t m) ++
    if t.userMode = .unspec then []
    else userAccesses (userSuffix t.userMode) (putAll { room := rewritelen } (templateEvents dialed t m))

/-- The template is for the line, and its pattern is used up and matches better than those before: its text is
put into the rewrite buffer. -/
def Best.adopts (pound : Bool) (line : UInt16) (dialed : CStr) (b : Best) (t : DialTemplate) : Bool :=
  let m := matchTemplate pound t.pattern dialed
  matchLineNumber t.line line && (m.pmatch = [] && (b.adoptPartial t m).betterFull m)

/-- The accesses of the pass over the templates. -/
def passAccesses (pound : Bool) (line : UInt16) (rewritelen : ℕ) (dialed : CStr) :
    Best → List DialTemplate → List Access
  | _, [] => []
  | b, t :: plan =>
    (if b.adopts pound line dialed t then
      rewriteAccesses rewritelen dialed t (matchTemplate pound t.pattern dialed) else []) ++
      passAccesses pound line rewritelen dialed (b.step pound line rewritelen dialed t) plan

/-- The templates whose text is put into the rewrite buffer. -/
def adopted (pound : Bool) (line : UInt16) (rewritelen : ℕ) (dialed : CStr) :
    Best → List DialTemplate → List DialTemplate
  | _, [] => []
  | b, t :: plan =>
    (if b.adopts pound line dialed t then [t] else []) ++
      adopted pound line rewritelen dialed (b.step pound line rewritelen dialed t) plan

/-- What is kept before the pass over the templates. -/
def Best.start (rewritelen : ℕ) (dialed : CStr) : Best :=
  { rewrite := (addbytes { room := rewritelen } dialed).written }

/-- The accesses of `MatchDialTemplate`: the dialed string is put into the buffer first. -/
def matchAccesses (pound : Bool) (plan : List DialTemplate) (line : UInt16) (rewritelen : ℕ) (dialed : CStr) :
    List Access :=
  accesses { room := rewritelen } [.put dialed] ++
    passAccesses pound line rewritelen dialed (.start rewritelen dialed) plan

/-- The pieces that are put out. -/
def pieces (es : List Event) : List CStr :=
  es.filterMap fun e => match e with
    | .sub _ => none
    | .put input => some input

/-- The buffer has room for the pieces: for all of them with a terminator, or there is not more than one, which
is cut. Nothing is written to a buffer of one byte but the terminator. -/
def PiecesFit (rewritelen : ℕ) (ps : List CStr) : Prop :=
  ps.flatten.length < rewritelen ∨ (ps.filter (· ≠ [])).length ≤ 1 ∨ rewritelen = 1

/-- The buffer has room for a suffix behind a text that is not empty, or the text that was put is a closing
bracket, which is overwritten. -/
def SuffixFits (rewritelen : ℕ) (text suffix : CStr) : Prop :=
  1 < rewritelen ∧ text ≠ [] ∧
    (text.length + suffix.length < rewritelen ∨ text.head? = some '>' ∧ (text.length = 1 ∨ rewritelen = 2))

/-- The buffer has room for the text of a template. -/
def RewriteRoom (pound : Bool) (rewritelen : ℕ) (dialed : CStr) (t : DialTemplate) : Prop :=
  let ps := pieces (templateEvents dialed t (matchTemplate pound t.pattern dialed))
  PiecesFit rewritelen ps ∧
    (t.userMode ≠ .unspec → SuffixFits rewritelen ps.flatten (userSuffix t.userMode))

/-! ## The events of the loop -/

/-- The substitutions that are looked at are those of the template. -/
def EventIn (subs : List (CStr × ℕ)) : Event → Prop
  | .sub idx => 0 ≤ idx ∧ idx < subs.length
  | .put _ => True

/-- The index of the dots is one of the substitutions, or in front of them. -/
structure DotsIn (subs : List (CStr × ℕ)) (d : DotState) : Prop where
  ge : -1 ≤ d.dotindex
  lt : d.dotindex < subs.length
  pos : 0 < d.dotsleft → 0 ≤ d.dotindex

variable {subs : List (CStr × ℕ)} {d : DotState}

theorem DotsIn.seekDot (h : DotsIn subs d) (fuel : ℕ) :
    DotsIn subs (seekDot subs fuel d).1 ∧ ∀ e ∈ (Dialplan.seekDot subs fuel d).2, EventIn subs e := by
  induction fuel generalizing d with
  | zero => exact ⟨h, fun e he => absurd he List.not_mem_nil⟩
  | succ fuel ih =>
    rw [Dialplan.seekDot]
    by_cases hseek : d.dotsleft = 0 ∧ d.dotindex < (subs.length : ℤ) - 1
    · rw [if_pos hseek]
      have hge := h.ge
      obtain ⟨hdots, hevents⟩ := @ih ⟨d.dotindex + 1, (subAt subs (d.dotindex + 1)).2⟩
        ⟨by dsimp only; omega, by dsimp only; omega, fun _ => by dsimp only; omega⟩
      refine ⟨hdots, fun e he => ?_⟩
      rcases List.mem_cons.mp he with rfl | he
      · exact ⟨by omega, by omega⟩
      · exact hevents e he
    · rw [if_neg hseek]
      exact ⟨h, fun e he => absurd he List.not_mem_nil⟩

/-- The loop over a rewrite string looks at the substitutions of the template. By induction on the rewrite
string. -/
theorem eventIn_rewriteEvents (dialed : CStr) (prewrite : CStr)
    (h : DotsIn subs d) : ∀ e ∈ rewriteEvents dialed subs prewrite d, EventIn subs e := by
  have hput : ∀ {p : CStr} {es : List Event}, (∀ e ∈ es, EventIn subs e) → ∀ e ∈ .put p :: es, EventIn subs e :=
    fun hes => List.forall_mem_cons.mpr ⟨trivial, hes⟩
  induction prewrite, d using rewriteEvents.induct subs with
  | case1 d => exact fun e he => absurd he List.not_mem_nil
  | case2 d => exact fun e he => absurd he List.not_mem_nil
  | case3 c prewrite d hc ih =>
    rw [rewriteEvents, if_pos hc]
    exact hput (ih h)
  | case4 c prewrite d hc idx hidx ih =>
    rw [rewriteEvents, if_neg hc]
    dsimp only
    rw [if_pos hidx]
    exact List.forall_mem_cons.mpr ⟨⟨hidx.1, by omega⟩, hput (ih h)⟩
  | case5 c prewrite d hc idx hidx ih =>
    rw [rewriteEvents, if_neg hc]
    dsimp only
    rw [if_neg hidx]
    exact hput (ih h)
  | case6 prewrite d r ihleft ihnone =>
    obtain ⟨hdots, hseek⟩ := h.seekDot subs.length
    rw [rewriteEvents]
    by_cases hpos : 0 < (seekDot subs subs.length d).1.dotsleft
    · dsimp only
      rw [if_pos hpos]
      exact List.forall_mem_append.mpr ⟨hseek, List.forall_mem_cons.mpr
        ⟨⟨hdots.pos hpos, hdots.lt⟩, hput (ihleft ⟨hdots.ge, hdots.lt, fun _ => hdots.pos hpos⟩)⟩⟩
    · dsimp only
      rw [if_neg hpos]
      exact List.forall_mem_append.mpr ⟨hseek, ihnone hdots⟩
  | case7 c prewrite d hend hpercent hdot ih =>
    rw [rewriteEvents]
    · exact hput (ih h)
    all_goals assumption

variable {es : List Event}

/-- What `addbytes` counts as room: everything that was written is added to the length of the buffer. -/
structure Counted (rewritelen : ℕ) (o : Output) : Prop where
  room : o.room = rewritelen + o.written.length
  lt : o.written.length < rewritelen

theorem Counted.start (h : 1 ≤ rewritelen) : Counted rewritelen { room := rewritelen } := ⟨rfl, h⟩

variable {o : Output}

theorem bytesCopied_le (h : Counted rewritelen o) (input : CStr) : bytesCopied o input ≤ input.length := by
  have hroom := h.room
  rw [bytesCopied]
  split_ifs with hcut
  · omega
  · exact le_rfl

theorem written_addbytes (o : Output) (input : CStr) :
    (addbytes o input).written = o.written ++ input.take (bytesCopied o input) := rfl

theorem length_written_addbytes (h : Counted rewritelen o) (input : CStr) :
    (addbytes o input).written.length = o.written.length + bytesCopied o input := by
  rw [written_addbytes, List.length_append, List.length_take, min_eq_left (bytesCopied_le h input)]

theorem write_lt_iff (h : Counted rewritelen o) (input : CStr) : o.written.length + bytesCopied o input < rewritelen ↔
      o.written.length = 0 ∨ o.written.length + input.length < rewritelen := by
  obtain ⟨hroom, hlt⟩ := h
  rw [bytesCopied]
  split_ifs with hcut <;> omega

theorem Counted.addbytes (h : Counted rewritelen o) {input : CStr}
    (hok : o.written.length + bytesCopied o input < rewritelen) : Counted rewritelen (addbytes o input) := by
  have hlength := length_written_addbytes h input
  refine ⟨?_, hlength ▸ hok⟩
  rw [hlength, ← Nat.add_assoc, ← h.room]
  rfl

theorem bytesCopied_of_empty (h : Counted rewritelen o)
    (hempty : o.written.length = 0) (input : CStr) : bytesCopied o input = min input.length (rewritelen - 1) := by
  obtain ⟨hroom, hlt⟩ := h
  rw [bytesCopied]
  split_ifs with hcut <;> omega

theorem bytesCopied_of_fits (h : Counted rewritelen o) {input : CStr}
    (hfits : o.written.length + input.length < rewritelen) : bytesCopied o input = input.length := by
  obtain ⟨hroom, hlt⟩ := h
  rw [bytesCopied]
  split_ifs with hcut <;> omega

/-! ## The room for the pieces -/

theorem filter_eq_zero_iff (ps : List CStr) : (ps.filter (· ≠ [])).length = 0 ↔ ps.flatten.length = 0 := by
  rw [List.length_eq_zero_iff, List.length_eq_zero_iff, List.filter_eq_nil_iff, List.flatten_eq_nil_iff]
  simp

theorem piecesFit_nil_cons (ps : List CStr) : PiecesFit rewritelen ([] :: ps) ↔ PiecesFit rewritelen ps := by
  simp [PiecesFit]

theorem piecesFit_cons_iff (hlen : 1 < rewritelen) {p : CStr} (hp : p ≠ []) (ps : List CStr) :
    PiecesFit rewritelen (p :: ps) ↔ min p.length (rewritelen - 1) + ps.flatten.length < rewritelen := by
  have hone : ((p :: ps).filter (· ≠ [])).length ≤ 1 ↔ ps.flatten.length = 0 := by
    rw [← filter_eq_zero_iff, List.filter_cons_of_pos (by simpa using hp), List.length_cons]
    omega
  rw [PiecesFit, hone, List.flatten_cons, List.length_append]
  omega

/-- The pieces are written in bounds when they fit, behind something as a whole. By induction on the pieces. -/
theorem traceOk_accesses_iff (hsubs : subs.length ≤ maxSubstitutions)
    (hes : ∀ e ∈ es, EventIn subs e) (ho : Counted rewritelen o)
    (before : List Access) :
    TraceOk rewritelen before (accesses o es) ↔
      if o.written.length = 0 then PiecesFit rewritelen (pieces es)
      else o.written.length + (pieces es).flatten.length < rewritelen := by
  induction es generalizing o before with
  | nil =>
    have hlt := ho.lt
    split_ifs
    · exact iff_of_true trivial (.inl (by simpa [pieces] using Nat.zero_lt_of_lt hlt))
    · exact iff_of_true trivial (by simpa [pieces] using hlt)
  | cons e es ih =>
    obtain ⟨he, hrest⟩ := List.forall_mem_cons.mp hes
    cases e with
    | sub idx =>
      rw [accesses, TraceOk, ih hrest ho]
      exact and_iff_right ⟨he.1, by have := he.2; omega⟩
    | put input =>
      rw [accesses, TraceOk]
      have hpieces : pieces (.put input :: es) = input :: pieces es := rfl
      rw [hpieces]
      have hwrite : (Access.write o.written.length (bytesCopied o input)).Ok rewritelen before ↔ _ :=
        write_lt_iff ho input
      by_cases hempty : o.written.length = 0
      · -- nothing is in front of the piece, which is cut when it does not fit
        have hok := hwrite.mpr (.inl hempty)
        have hlength := length_written_addbytes ho input
        rw [hempty, Nat.zero_add, bytesCopied_of_empty ho hempty] at hlength
        rw [and_iff_right hok, ih hrest (ho.addbytes hok), if_pos hempty, hlength]
        have hlt := ho.lt
        by_cases hone : rewritelen = 1
        · subst hone
          rw [if_pos (by omega)]
          exact iff_of_true (.inr (.inr rfl)) (.inr (.inr rfl))
        · by_cases hinput : input = []
          · subst hinput
            rw [if_pos (by simp), piecesFit_nil_cons]
          · have hpos := List.length_pos_iff.mpr hinput
            rw [if_neg (by omega), piecesFit_cons_iff (by omega) hinput]
      · rw [if_neg hempty, List.flatten_cons, List.length_append, ← Nat.add_assoc]
        by_cases hfits : o.written.length + input.length < rewritelen
        · have hok := hwrite.mpr (.inr hfits)
          have hlength := length_written_addbytes ho input
          rw [bytesCopied_of_fits ho hfits] at hlength
          rw [and_iff_right hok, ih hrest (ho.addbytes hok), hlength, if_neg (by omega)]
        · refine iff_of_false (fun hok => ?_) (by omega)
          rcases hwrite.mp hok.1 with h | h
          · exact hempty h
          · exact hfits h

/-- The pieces of a trace in bounds are what is written, cut to the buffer, and they are counted. By induction on
the pieces. -/
theorem written_putAll (ho : Counted rewritelen o) (hok : TraceOk rewritelen before (accesses o es)) :
    Counted rewritelen (putAll o es) ∧
      (putAll o es).written = (o.written ++ (pieces es).flatten).take (rewritelen - 1) := by
  induction es generalizing o before with
  | nil =>
    have hlt := ho.lt
    refine ⟨ho, ?_⟩
    rw [show (pieces []).flatten = [] from rfl, List.append_nil, List.take_of_length_le (by omega)]
    rfl
  | cons e es ih =>
    cases e with
    | sub idx => exact ih ho hok.2
    | put input =>
      obtain ⟨hwrite, hrest⟩ := hok
      obtain ⟨hcounted, hwritten⟩ := ih (ho.addbytes hwrite) hrest
      refine ⟨hcounted, hwritten.trans ?_⟩
      rw [show pieces (.put input :: es) = input :: pieces es from rfl, List.flatten_cons, written_addbytes]
      rcases (write_lt_iff ho input).mp hwrite with hempty | hfits
      · rw [bytesCopied_of_empty ho hempty, List.length_eq_zero_iff.mp hempty, List.nil_append, List.nil_append]
        rcases Nat.lt_or_ge input.length (rewritelen - 1) with hlt | hge
        · rw [min_eq_left hlt.le, List.take_length]
        · -- the piece fills the buffer, and hides those behind it
          rw [min_eq_right hge, List.take_append_of_le_length (by rw [List.length_take]; omega),
            List.take_append_of_le_length hge, List.take_take, min_self]
      · rw [bytesCopied_of_fits ho hfits, List.take_length, List.append_assoc]

theorem exists_write (ho : Counted rewritelen o)
    (hok : TraceOk rewritelen before (accesses o es)) {i : ℕ} (hi : o.written.length ≤ i)
    (hlt : i < (putAll o es).written.length) :
    ∃ start len, Access.write start len ∈ accesses o es ∧ start ≤ i ∧ i < start + len := by
  induction es generalizing o before with
  | nil => exact absurd hlt (Nat.not_lt.mpr hi)
  | cons e es ih =>
    cases e with
    | sub idx =>
      obtain ⟨start, len, hmem, hstart⟩ := ih ho hok.2 hi hlt
      exact ⟨start, len, List.mem_cons_of_mem _ hmem, hstart⟩
    | put input =>
      obtain ⟨hwrite, hrest⟩ := hok
      rcases Nat.lt_or_ge i (o.written.length + bytesCopied o input) with hhere | hbehind
      · exact ⟨_, _, List.mem_cons_self, hi, hhere⟩
      · rw [← length_written_addbytes ho] at hbehind
        obtain ⟨start, len, hmem, hstart⟩ := ih (ho.addbytes hwrite) hrest hbehind hlt
        exact ⟨start, len, List.mem_cons_of_mem _ hmem, hstart⟩

/-! ## The user mode -/

/-- A suffix is written in bounds when there is something in front of it, and it fits, or overwrites a closing
bracket that is all there is. -/
theorem traceOk_userAccesses_iff (user : CStr) (ho : Counted rewritelen o) (hstart : o.written = [])
    (hok : TraceOk rewritelen before (accesses o es)) :
    TraceOk rewritelen (before ++ accesses o es) (userAccesses user (putAll o es)) ↔ 0 < (putAll o es).written.length ∧
        ((putAll o es).written.length + user.length < rewritelen ∨
          (putAll o es).written.length = 1 ∧ (putAll o es).written.getLast? = some '>') := by
  obtain ⟨hcounted, -⟩ := written_putAll ho hok
  have hread : (Access.read (((putAll o es).written.length : ℤ) - 1)).Ok rewritelen (before ++ accesses o es) ↔
      0 < (putAll o es).written.length := by
    constructor
    · rintro ⟨start, len, -, hle, -⟩
      omega
    · intro hpos
      obtain ⟨start, len, hmem, hle, hlt⟩ :=
        exists_write ho hok (i := (putAll o es).written.length - 1) (by rw [hstart]; exact Nat.zero_le _) (by omega)
      exact ⟨start, len, List.mem_append_right _ hmem, by omega, by omega⟩
  rw [userAccesses, TraceOk, hread]
  refine and_congr_right fun hpos => ?_
  generalize putAll o es = o' at hcounted hpos ⊢
  by_cases hlast : o'.written.getLast? = some '>'
  · have hdrop : o'.written.dropLast.length = o'.written.length - 1 := List.length_dropLast
    have hback : Counted rewritelen { written := o'.written.dropLast, room := o'.room - 1 } :=
      ⟨by have := hcounted.room; dsimp only; omega, by have := hcounted.lt; dsimp only; omega⟩
    have hwrite := write_lt_iff hback (user ++ ['>'])
    dsimp only at hwrite
    rw [hdrop, List.length_append, List.length_singleton] at hwrite
    rw [if_pos hlast, TraceOk, TraceOk, and_true, Access.Ok, hwrite, and_iff_left hlast]
    omega
  · rw [if_neg hlast, TraceOk, TraceOk, and_true, Access.Ok, write_lt_iff hcounted, or_iff_right hpos.ne']
    exact (or_iff_left fun h => hlast h.2).symm

theorem suffixFits_iff (hlen : 1 ≤ rewritelen) {text suffix : CStr} (hsuffix : suffix ≠ []) :
    (0 < (text.take (rewritelen - 1)).length ∧ ((text.take (rewritelen - 1)).length + suffix.length < rewritelen ∨
          (text.take (rewritelen - 1)).length = 1 ∧ (text.take (rewritelen - 1)).getLast? = some '>')) ↔
      SuffixFits rewritelen text suffix := by
  have hpos := List.length_pos_iff.mpr hsuffix
  rw [SuffixFits]
  cases text with
  | nil => simp
  | cons c text =>
    rcases Nat.lt_or_ge 1 rewritelen with hone | hone
    · obtain ⟨n, rfl⟩ : ∃ n, rewritelen = n + 2 := ⟨rewritelen - 2, by omega⟩
      have hbracket : (List.take (n + 2 - 1) (c :: text)).length = 1 →
          ((List.take (n + 2 - 1) (c :: text)).getLast? = some '>' ↔ c = '>') := by
        intro hlength
        obtain ⟨d, hd⟩ := List.length_eq_one_iff.mp hlength
        have hhead : c = d := by
          simpa using congrArg List.head? hd
        rw [hd, hhead, List.getLast?_singleton, Option.some_inj]
      rw [and_congr_right_iff.mpr hbracket, List.length_take, List.length_cons, List.head?_cons, Option.some_inj]
      have hne : c :: text ≠ [] := List.cons_ne_nil _ _
      simp only [hne, ne_eq, not_false_eq_true, true_and, hone]
      by_cases hc : c = '>' <;> simp only [hc, and_true, and_false, or_false, true_and, false_and] <;> omega
    · obtain rfl : rewritelen = 1 := by omega
      simp

/-! ## The templates -/

theorem length_capture_le {m : Matching} (h : m.subs.length ≤ maxSubstitutions) (n : ℕ) :
    (m.capture n).length ≤ maxSubstitutions := by
  rw [Matching.capture]
  dsimp only
  rw [List.length_modify]
  split_ifs with hlt
  · rw [List.length_append, List.length_singleton]
    exact hlt
  · exact h

theorem length_subs_le (pound : Bool) (pattern dialed : CStr) :
    (matchTemplate pound pattern dialed).subs.length ≤ maxSubstitutions := by
  refine matchLoop_invariant pound (P := fun m => m.subs.length ≤ maxSubstitutions) ?_ ?_ ?_ ?_ _ _
    (Nat.zero_le _)
  · intro m hm
    unfold Matching.skipCommas
    split_ifs <;> exact hm
  · exact fun m c s _ hm => length_capture_le hm _
  · exact fun m c s _ hm => length_capture_le hm _
  · intro m c s _ hm
    unfold Matching.matchLiteral
    split_ifs <;> exact hm

theorem eventIn_templateEvents (dialed : CStr) (t : DialTemplate) (m : Matching) :
    ∀ e ∈ templateEvents dialed t m, EventIn m.subs e := by
  rw [templateEvents]
  split
  · exact List.forall_mem_singleton.mpr trivial
  · exact eventIn_rewriteEvents dialed _ ⟨by decide, by dsimp only; omega, fun h => absurd h (Nat.lt_irrefl 0)⟩

theorem userSuffix_ne_nil {u : UserMode} (h : u ≠ .unspec) : userSuffix u ≠ [] := by
  cases u with
  | unspec => exact absurd rfl h
  | phone => decide
  | ip => decide

theorem traceOk_rewriteAccesses_iff (pound : Bool) (hlen : 1 ≤ rewritelen) (dialed : CStr)
    (t : DialTemplate) (before : List Access) :
    TraceOk rewritelen before (rewriteAccesses rewritelen dialed t (matchTemplate pound t.pattern dialed)) ↔
      RewriteRoom pound rewritelen dialed t := by
  have hsubs := length_subs_le pound t.pattern dialed
  have hstart := Counted.start hlen
  rw [rewriteAccesses, RewriteRoom, traceOk_append]
  generalize matchTemplate pound t.pattern dialed = m at hsubs ⊢
  have hpieces := traceOk_accesses_iff hsubs (eventIn_templateEvents dialed t m) hstart before
  rw [if_pos List.length_nil] at hpieces
  rw [← hpieces]
  refine and_congr_right fun hok => ?_
  by_cases huser : t.userMode = .unspec
  · rw [if_pos huser]
    exact iff_of_true trivial fun h => absurd huser h
  · obtain ⟨-, hwritten⟩ := written_putAll hstart hok
    rw [List.nil_append] at hwritten
    rw [if_neg huser, traceOk_userAccesses_iff _ hstart rfl hok, hwritten,
      suffixFits_iff hlen (userSuffix_ne_nil huser)]
    exact ⟨fun h _ => h, fun h => h huser⟩

/-- The pass over the templates stays in bounds when the buffer has room for those whose text is put into it. By
induction on the templates. -/
theorem traceOk_passAccesses_iff (pound : Bool) (line : UInt16) (hlen : 1 ≤ rewritelen)
    (dialed : CStr) (plan : List DialTemplate) (b : Best) (before : List Access) :
    TraceOk rewritelen before (passAccesses pound line rewritelen dialed b plan) ↔
      ∀ t ∈ adopted pound line rewritelen dialed b plan, RewriteRoom pound rewritelen dialed t := by
  induction plan generalizing b before with
  | nil => exact iff_of_true trivial fun t ht => absurd ht List.not_mem_nil
  | cons t plan ih =>
    rw [passAccesses, adopted, traceOk_append, ih, List.forall_mem_append]
    refine and_congr_left fun _ => ?_
    split_ifs
    · rw [traceOk_rewriteAccesses_iff pound hlen, List.forall_mem_singleton]
    · exact iff_of_true trivial fun t ht => absurd ht List.not_mem_nil

/-- **When the rewrite buffer is not overrun.** For every list of templates, line, dialed string and length of the
buffer, `MatchDialTemplate` writes inside the rewrite buffer, reads what was written, and looks at substitutions in
their array, exactly when the buffer has room for the text of every template that it adopts on the way. -/
theorem rewrite_bounded_iff (pound : Bool) (plan : List DialTemplate) (line : UInt16) {rewritelen : ℕ}
    (hlen : 1 ≤ rewritelen) (dialed : CStr) :
    TraceOk rewritelen [] (matchAccesses pound plan line rewritelen dialed) ↔
      ∀ t ∈ adopted pound line rewritelen dialed (.start rewritelen dialed) plan,
        RewriteRoom pound rewritelen dialed t := by
  rw [matchAccesses, traceOk_append, traceOk_passAccesses_iff pound line hlen]
  refine and_iff_right ⟨?_, trivial⟩
  exact (write_lt_iff (.start hlen) dialed).mpr (.inl rfl)

/-- A template whose rewrite string fits stays in bounds. -/
theorem rewrite_bounded_nine :
    TraceOk 16 [] (matchAccesses true [{ pattern := ['9', '.'], rewrite := ['%', '1'], userMode := .phone }] 1 16
      ['9', '5']) := by
  refine (rewrite_bounded_iff true _ 1 (by decide) ['9', '5']).mpr ?_
  intro t ht
  have hadopted : adopted true 1 16 ['9', '5'] (.start 16 ['9', '5'])
      [{ pattern := ['9', '.'], rewrite := ['%', '1'], userMode := .phone }] =
      [{ pattern := ['9', '.'], rewrite := ['%', '1'], userMode := .phone }] := by decide
  rw [hadopted, List.mem_singleton] at ht
  subst ht
  exact ⟨.inl (by decide), fun _ => ⟨by decide, by decide, .inl (by decide)⟩⟩

/-- **The rewrite buffer is overrun.** The rewrite string of the template is one byte longer than the buffer takes,
and its last piece is written behind the end. -/
theorem not_rewrite_bounded :
    ¬TraceOk 4 [] (matchAccesses true [{ pattern := ['1', '2'], rewrite := ['a', 'b', '%', 's'] }] 1 4 ['1', '2']) := by
  have htrace : matchAccesses true [{ pattern := ['1', '2'], rewrite := ['a', 'b', '%', 's'] }] 1 4 ['1', '2'] =
      [.write 0 2, .write 0 1, .write 1 1, .write 2 2] := by decide
  rw [htrace]
  rintro ⟨-, -, -, hlast, -⟩
  exact absurd hlast (by rw [Access.Ok]; decide)

end Dialplan
