import ModuleSurface.Proofs.Signature.Accepted

/-!
# Places — what a slot gives, from the slots before and behind it

The kind of a parameter depends on stars before its slot and on a slash behind it, so that it is
known of a slot only together with its neighbours (`Place.kind`).  A run of slots gives one
parameter for each place that is no marker, of the kind of that place (`forall₂_says_of_reads`),
and this settles the shape of every signature that parsing gives (`hasShape_of_parse`).
-/

namespace ModuleSurface.Signature

open Text (trim AllBlank)

/-! ## 1. Places of slots -/

/-- A slot with the slots before and behind it. -/
structure Place where
  before : List (List Char)
  slot : List Char
  after : List (List Char)

def placesFrom (before : List (List Char)) : List (List Char) → List Place
  | [] => []
  | slot :: after => ⟨before, slot, after⟩ :: placesFrom (before ++ [slot]) after

namespace Place

/-- Whether a slash or a lone star stands at the place. -/
def IsMarker (place : Place) : Prop :=
  place.slot = ['/'] ∨ place.slot = ['*']

instance (place : Place) : Decidable place.IsMarker :=
  inferInstanceAs (Decidable (_ ∨ _))

def kind (place : Place) : ParameterKind :=
  if ['*', '*'] <+: place.slot then .varKeyword
  else if ['*'] <+: place.slot then .varPositional
  else if ∃ earlier ∈ place.before, ['*'] <+: earlier then .keywordOnly
  else if ['/'] ∈ place.after then .positionalOnly
  else .positionalOrKeyword

def followedBy (place : Place) (slot : List Char) : Place :=
  { place with after := place.after ++ [slot] }

end Place

/-- The places of those slots that are not markers, behind some others. -/
def parameterPlacesFrom (before slots : List (List Char)) : List Place :=
  (placesFrom before slots).filter (¬ ·.IsMarker)

theorem placesFrom_concat (before slots : List (List Char)) (slot : List Char) :
    placesFrom before (slots ++ [slot]) =
      (placesFrom before slots).map (·.followedBy slot) ++ [⟨before ++ slots, slot, []⟩] := by
  induction slots generalizing before with
  | nil => simp [placesFrom]
  | cons first slots ih =>
    rw [List.cons_append, placesFrom, ih, placesFrom, List.append_assoc]
    rfl

theorem parameterPlacesFrom_cons_marker {before after : List (List Char)} {slot : List Char}
    (h : slot = ['/'] ∨ slot = ['*']) :
    parameterPlacesFrom before (slot :: after) = parameterPlacesFrom (before ++ [slot]) after := by
  have hmarker : (⟨before, slot, after⟩ : Place).IsMarker := h
  rw [parameterPlacesFrom, placesFrom, List.filter_cons_of_neg (by simpa using hmarker)]
  rfl

theorem parameterPlacesFrom_cons {before after : List (List Char)} {slot : List Char}
    (hslash : slot ≠ ['/']) (hstar : slot ≠ ['*']) :
    parameterPlacesFrom before (slot :: after) =
      ⟨before, slot, after⟩ :: parameterPlacesFrom (before ++ [slot]) after := by
  have hmarker : ¬ (⟨before, slot, after⟩ : Place).IsMarker := not_or.mpr ⟨hslash, hstar⟩
  rw [parameterPlacesFrom, placesFrom, List.filter_cons_of_pos (by simpa using hmarker)]
  rfl

/-- What a slot says as the last one is said at its place, and the places before it stay. -/
theorem parameterPlacesFrom_concat (before slots : List (List Char)) (slot : List Char) :
    parameterPlacesFrom before (slots ++ [slot]) =
      (parameterPlacesFrom before slots).map (·.followedBy slot) ++
        [(⟨before ++ slots, slot, []⟩ : Place)].filter (¬ ·.IsMarker) := by
  rw [parameterPlacesFrom, placesFrom_concat, List.filter_append, List.filter_map]
  rfl

theorem map_slot_parameterPlacesFrom (before slots : List (List Char)) :
    (parameterPlacesFrom before slots).map (·.slot) = parameterSlots slots := by
  induction slots generalizing before with
  | nil => rfl
  | cons slot slots ih =>
    by_cases hmarker : slot = ['/'] ∨ slot = ['*']
    · rw [parameterPlacesFrom_cons_marker hmarker, ih]
      rcases hmarker with rfl | rfl <;> rfl
    · rw [not_or] at hmarker
      rw [parameterPlacesFrom_cons hmarker.1 hmarker.2, List.map_cons, ih]
      simp [parameterSlots, hmarker]

/-- A place stands between the slots that it knows of. -/
theorem exists_of_mem_placesFrom {before slots : List (List Char)} {place : Place}
    (h : place ∈ placesFrom before slots) :
    ∃ front, place.before = before ++ front ∧ slots = front ++ place.slot :: place.after := by
  induction slots generalizing before with
  | nil => exact absurd h List.not_mem_nil
  | cons slot slots ih =>
    rw [placesFrom, List.mem_cons] at h
    rcases h with rfl | h
    · exact ⟨[], (List.append_nil before).symm, rfl⟩
    · obtain ⟨front, hbefore, hslots⟩ := ih h
      refine ⟨slot :: front, ?_, by rw [hslots]; rfl⟩
      rw [hbefore, List.append_assoc]
      rfl

/-! ## 2. The kinds of places -/

namespace Place

/-- Only a slash that follows changes what is known of a place. -/
theorem kind_followedBy (place : Place) {slot : List Char} (hslash : slot ≠ ['/']) :
    (place.followedBy slot).kind = place.kind := by
  have hafter : ['/'] ∈ place.after ++ [slot] ↔ ['/'] ∈ place.after := by
    rw [List.mem_append, List.mem_singleton, or_iff_left (Ne.symm hslash)]
  simp only [kind, followedBy, hafter]

theorem kind_of_double {place : Place} (h : ['*', '*'] <+: place.slot) :
    place.kind = .varKeyword := by
  rw [kind, if_pos h]

theorem kind_of_single {place : Place} (hstar : ['*'] <+: place.slot)
    (hdouble : ¬ ['*', '*'] <+: place.slot) : place.kind = .varPositional := by
  rw [kind, if_neg hdouble, if_pos hstar]

theorem kind_of_plain {place : Place} (h : ¬ ['*'] <+: place.slot) :
    place.kind =
      if ∃ earlier ∈ place.before, ['*'] <+: earlier then .keywordOnly
      else if ['/'] ∈ place.after then .positionalOnly else .positionalOrKeyword := by
  rw [kind, if_neg (not_star_iff_of_not_star h).1, if_neg h]

theorem kind_of_slash {place : Place} (hslot : ¬ ['*'] <+: place.slot)
    (hbefore : ∀ earlier ∈ place.before, ¬ ['*'] <+: earlier) (hslash : ['/'] ∈ place.after) :
    place.kind = .positionalOnly := by
  have hnone : ¬ ∃ earlier ∈ place.before, ['*'] <+: earlier := by
    rintro ⟨earlier, hmem, hstar⟩
    exact hbefore earlier hmem hstar
  rw [kind_of_plain hslot, if_neg hnone, if_pos hslash]

theorem mem_after_of_positionalOnly {place : Place} (h : place.kind = .positionalOnly) :
    ['/'] ∈ place.after := by
  by_contra hnone
  simp only [kind, if_neg hnone] at h
  split_ifs at h

theorem star_of_varPositional {place : Place} (h : place.kind = .varPositional) :
    ['*'] <+: place.slot ∧ ¬ ['*', '*'] <+: place.slot := by
  rw [kind] at h
  split_ifs at h with hdouble hstar
  exact ⟨hstar, hdouble⟩

theorem exists_star_of_keywordOnly {place : Place} (h : place.kind = .keywordOnly) :
    ∃ earlier ∈ place.before, ['*'] <+: earlier := by
  by_contra hnone
  simp only [kind, if_neg hnone] at h
  split_ifs at h

end Place

/-! ## 3. The kinds that a run gives -/

/-- One more slot: the places before it keep their kinds, or a slash turns them all. -/
theorem Reading.Knows.kinds_next {r next : Reading} {slots : List (List Char)} {slot : List Char}
    (hr : r.Knows slots) (h : r.Next (.ofText slot) next)
    (hkinds : r.parameters.map (·.kind) = (parameterPlacesFrom [] slots).map (·.kind)) :
    next.parameters.map (·.kind) = (parameterPlacesFrom [] (slots ++ [slot])).map (·.kind) := by
  rw [parameterPlacesFrom_concat, List.map_append, List.map_map]
  have hkept : slot ≠ ['/'] → (parameterPlacesFrom [] slots).map
      (Place.kind ∘ (·.followedBy slot)) = r.parameters.map (·.kind) := by
    intro hslash
    rw [hkinds]
    exact List.map_congr_left fun place _ => place.kind_followedBy hslash
  -- a parameter is added whose slot is no marker
  have hadd : ∀ {p : Parameter}, slot ≠ ['/'] → slot ≠ ['*'] →
      p.kind = Place.kind ⟨slots, slot, []⟩ →
      (r.parameters ++ [p]).map (·.kind) =
        (parameterPlacesFrom [] slots).map (Place.kind ∘ (·.followedBy slot)) ++
          ([(⟨[] ++ slots, slot, []⟩ : Place)].filter (¬ ·.IsMarker)).map (·.kind) := by
    intro p hslash hstar hp
    have hmarker : ¬ (⟨slots, slot, []⟩ : Place).IsMarker := not_or.mpr ⟨hslash, hstar⟩
    rw [hkept hslash, List.map_append, List.nil_append,
      List.filter_cons_of_pos (by simpa using hmarker)]
    simp [hp]
  rcases ofText_cases slot with ⟨rfl, htext⟩ | ⟨rfl, htext⟩ | ⟨rfl, htext⟩ | ⟨hdouble, htext⟩ |
    ⟨hstar, hsingle, hne, htext⟩ | ⟨-, hslash, hstar, htext⟩ <;> rw [htext] at h
  · exact h.elim
  · -- nothing before the slash has a star, so that every place there is turned
    obtain ⟨hclosed, -, hkeyword, -, rfl⟩ := h
    have hopen := hr.closed_eq_false_iff.mp hclosed
    have hnone := (hr.keywordOnly_eq_false_iff hopen).mp hkeyword
    have hturned : ∀ place ∈ parameterPlacesFrom [] slots,
        (place.followedBy ['/']).kind = .positionalOnly := by
      intro place hplace
      obtain ⟨front, hbefore, hslots⟩ := exists_of_mem_placesFrom (List.mem_of_mem_filter hplace)
      rw [List.nil_append] at hbefore
      rw [hslots, ← hbefore] at hnone
      apply Place.kind_of_slash
      · exact hnone place.slot (by simp)
      · exact fun earlier hearlier => hnone earlier (List.mem_append_left _ hearlier)
      · exact List.mem_append_right _ (List.mem_singleton_self _)
    calc (r.parameters.map ({ · with kind := .positionalOnly })).map (·.kind)
        = (r.parameters.map (·.kind)).map fun _ => ParameterKind.positionalOnly := by
          rw [List.map_map, List.map_map]
          rfl
      _ = (parameterPlacesFrom [] slots).map (Place.kind ∘ (·.followedBy ['/'])) := by
          rw [hkinds, List.map_map]
          exact List.map_congr_left fun place hplace => (hturned place hplace).symm
      _ = _ := (List.append_nil _).symm
  · obtain ⟨-, rfl⟩ := h
    rw [hkept (by decide)]
    exact (List.append_nil _).symm
  · obtain ⟨-, p, hp, rfl⟩ := h
    obtain ⟨hstar, hne⟩ := star_of_double hdouble
    apply hadd (ne_slash_of_star hstar) hne
    rw [Place.kind_of_double hdouble]
    exact kind_of_readParameter hp
  · obtain ⟨-, p, hp, rfl⟩ := h
    apply hadd (ne_slash_of_star hstar) hne
    rw [Place.kind_of_single hstar hsingle]
    exact kind_of_readParameter hp
  · obtain ⟨hclosed, p, hp, rfl⟩ := h
    apply hadd hslash (not_star_iff_of_not_star hstar).2
    have hopen := hr.closed_eq_false_iff.mp hclosed
    rw [Place.kind_of_plain hstar, kind_of_readParameter hp]
    -- the state remembers whether a star came before
    cases hkeyword : r.keywordOnly with
    | false =>
      have hnone := (hr.keywordOnly_eq_false_iff hopen).mp hkeyword
      rw [if_neg (by simpa using hnone), if_neg List.not_mem_nil]
      rfl
    | true =>
      obtain ⟨earlier, hmem, hearlier, -⟩ := hr.keywordOnly.mp hkeyword
      rw [if_pos ⟨earlier, hmem, hearlier⟩]
      rfl

-- From the right, since a slot changes what is known of all places before it.
theorem kinds_of_reads {slots : List (List Char)} {last : Reading}
    (h : Reading.start.Reads slots last) :
    last.parameters.map (·.kind) = (parameterPlacesFrom [] slots).map (·.kind) := by
  induction slots using List.reverseRecOn generalizing last with
  | nil =>
    rw [show last = Reading.start from h]
    rfl
  | append_singleton slots slot ih =>
    obtain ⟨next, hnext, last', hlast, heq⟩ := (Reading.reads_append_iff _ _ _ _).mp h
    rw [show last = last' from heq]
    exact (Reading.knows_start.run hnext).kinds_next hlast (ih hnext)

/-! ## 4. The parameters that a run gives -/

theorem forall₂_and_of_map_eq {α β γ : Type} {R : α → β → Prop} {f : α → γ} {g : β → γ}
    {xs : List α} {ys : List β} (h : List.Forall₂ R xs ys) (heq : ys.map g = xs.map f) :
    List.Forall₂ (fun x y => g y = f x ∧ R x y) xs ys := by
  induction h with
  | nil => exact .nil
  | cons hxy _ ih =>
    rw [List.map_cons, List.map_cons, List.cons.injEq] at heq
    exact .cons ⟨heq.1, hxy⟩ (ih heq.2)

/-- Each place that is no marker gives a parameter of its kind. -/
theorem forall₂_gives_of_reads {slots : List (List Char)} {last : Reading}
    (h : Reading.start.Reads slots last) :
    List.Forall₂ (fun place p => p.kind = place.kind ∧ Gives place.slot p)
      (parameterPlacesFrom [] slots) last.parameters := by
  have hgives := (Reading.accounts_start.run h).gives
  rw [List.nil_append, ← map_slot_parameterPlacesFrom [] slots, List.forall₂_map_left_iff] at hgives
  exact forall₂_and_of_map_eq hgives (kinds_of_reads h)

/-- Whether a parameter is what a place says: its kind is that of the place, and behind the stars
of its kind the slot is cut into its name, its annotation and its default, blanks apart. -/
structure Place.Says (place : Place) (p : Parameter) : Prop where
  kind : p.kind = place.kind
  parts : ∃ parts : Parts, parts.IsCut ∧ place.slot = p.kind.stars.toList ++ parts.text ∧
    p.name.toList = trim parts.name ∧ p.annotation.map String.toList = kept parts.type ∧
      p.default.map String.toList = kept parts.value

theorem Place.says_of_gives {place : Place} {p : Parameter} (hnested : Nested place.slot)
    (hkind : p.kind = place.kind) (h : Gives place.slot p) : place.Says p := by
  obtain ⟨parts, htext, hcut⟩ := exists_parts (nested_afterStars hnested)
  have hread := h.read
  rw [← htext, readParameter_text p.kind hcut] at hread
  split at hread
  · exact absurd hread (by simp)
  · rw [Option.some.injEq] at hread
    refine ⟨hkind, parts, hcut, ?_, ?_, ?_, ?_⟩
    · rw [htext]
      exact h.stars
    · rw [← hread, String.toList_ofList]
    · rw [← hread, Option.map_map]
      cases kept parts.type <;> simp
    · rw [← hread, Option.map_map]
      cases kept parts.value <;> simp

/-! ## 5. The signatures that parsing gives -/

/-- The slots of the text between the parentheses, of which a blank text has none. -/
def SlotsOf (inner : List Char) (slots : List (List Char)) : Prop :=
  AllBlank inner ∧ slots = [] ∨ ¬ AllBlank inner ∧ IsSlots inner slots

/-- The shape that a signature has from the text that it is parsed from: which parameters there
are, of which kinds and in which order, and of what form their parts are. -/
structure HasShape (text : List Char) (s : Signature) : Prop where
  slots : ∃ inner after slots, trim text = '(' :: inner ++ ')' :: after ∧ Nested inner ∧
    SlotsOf inner slots ∧ List.Forall₂ Place.Says (parameterPlacesFrom [] slots) s.parameters ∧
      Returns after s.returns
  ordered : ∃ a : Arrangement, a.parameters = s.parameters ∧ a.IsOrdered
  written : ∀ p ∈ s.parameters, p.IsWritten
  plain : ∀ p ∈ s.parameters, p.kind.isVariadic = false → ¬ ['*'] <+: p.name.toList
  returns : ∀ type ∈ s.returns, IsReturn type

theorem forall₂_says_of_reads {slots : List (List Char)} {last : Reading}
    (hnested : ∀ slot ∈ slots, Nested slot) (h : Reading.start.Reads slots last) :
    List.Forall₂ Place.Says (parameterPlacesFrom [] slots) last.parameters := by
  have hplaces : ∀ place ∈ parameterPlacesFrom [] slots, Nested place.slot := by
    intro place hplace
    obtain ⟨front, -, hslots⟩ := exists_of_mem_placesFrom (List.mem_of_mem_filter hplace)
    exact hnested place.slot (by simp [hslots])
  have hgives := (List.forall₂_and_left _ _).mpr ⟨hplaces, forall₂_gives_of_reads h⟩
  apply hgives.imp
  intro place p hp
  exact Place.says_of_gives hp.1 hp.2.1 hp.2.2

theorem ParameterKind.stars_of_not_isVariadic {kind : ParameterKind}
    (h : kind.isVariadic = false) : kind.stars = "" := by
  cases kind <;> first | rfl | exact absurd h (by decide)

/-- Every signature that parsing gives has the shape that its text says. -/
theorem hasShape_of_parse (text : String) (s : Signature) (h : parse text = .ok s) :
    HasShape text.toList s := by
  have haccepted := accepted_of_parse h
  obtain ⟨inner, after, htext, hinner, hreturns, hdeclares⟩ := (parse_eq_ok_iff text s).mp h
  refine ⟨⟨inner, after, ?_⟩, haccepted.exists_arrangement, haccepted.isWritten, ?_,
    haccepted.returns⟩
  · rcases hdeclares with ⟨hblank, hnil⟩ | ⟨hblank, slots, hslots, last, hreads, hlast⟩
    · refine ⟨[], htext, hinner, .inl ⟨hblank, rfl⟩, ?_, hreturns⟩
      rw [hnil]
      exact .nil
    · refine ⟨slots, htext, hinner, .inr ⟨hblank, hslots⟩, ?_, hreturns⟩
      rw [hlast]
      exact forall₂_says_of_reads hslots.nested hreads
  · intro p hp hkind
    exact haccepted.not_star_name hp (ParameterKind.stars_of_not_isVariadic hkind)

/-- A signature with all markers, and with parts that are blank or begin with a mark of another
kind. -/
def markedSample : Signature where
  parameters :=
    [⟨"a", .positionalOnly, some "Map[int, '/']", none⟩, ⟨"/", .positionalOnly, none, some ": b"⟩,
      ⟨"c", .positionalOrKeyword, none, none⟩, ⟨"*args", .varPositional, none, none⟩,
      ⟨"d", .keywordOnly, none, some "(1, 2)"⟩, ⟨"*rest", .varKeyword, some "int", none⟩]
  returns := some "-> (int"

theorem hasShape_markedSample :
    parse "(a :Map[int, '/'],/=: b,/, c:=,* *args, d=(1, 2), *, ***rest: int) -> -> (int" =
        .ok markedSample ∧
      HasShape
        "(a :Map[int, '/'],/=: b,/, c:=,* *args, d=(1, 2), *, ***rest: int) -> -> (int".toList
        markedSample := by
  have h : parse "(a :Map[int, '/'],/=: b,/, c:=,* *args, d=(1, 2), *, ***rest: int) -> -> (int" =
      .ok markedSample := by rfl
  exact ⟨h, hasShape_of_parse _ _ h⟩

end ModuleSurface.Signature
