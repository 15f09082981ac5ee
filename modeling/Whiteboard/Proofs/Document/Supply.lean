import Whiteboard.Proofs.Document.Made
import Whiteboard.Proofs.Document.Placed

/-!
# Ids from a supply

Elements that lack ids are given them from a supply where they are read. Whether they are read, and
all that is read but these ids, does not depend on the supply (`Element.apply_of_leads`), and where
no id is drawn nothing does (`Element.apply_of_idle`).
-/

namespace Whiteboard

variable {α : Type}

namespace IdSupply

variable {s s' s'' : IdSupply} {id id' id'' : String}

/-- One supply is what another became when ids were drawn. -/
def Leads (s s' : IdSupply) : Prop := ∃ n, s' = s.advance n

theorem Leads.refl (s : IdSupply) : s.Leads s := ⟨0, rfl⟩

theorem Leads.trans (h : s.Leads s') (h' : s'.Leads s'') : s.Leads s'' := by
  obtain ⟨m, rfl⟩ := h
  obtain ⟨n, rfl⟩ := h'
  exact ⟨m + n, s.advance_advance m n⟩

theorem advance_eq_self_iff {n : Nat} : s.advance n = s ↔ n = 0 := by
  constructor
  · intro h
    have hissued : s.issued + n = s.issued := congrArg issued h
    omega
  · rintro rfl
    rfl

theorem Leads.eq_of_leads (h : s.Leads s') (h' : s'.Leads s) : s' = s := by
  obtain ⟨m, rfl⟩ := h
  obtain ⟨n, hn⟩ := h'
  rw [advance_advance] at hn
  obtain ⟨rfl, -⟩ := Nat.add_eq_zero_iff.mp (advance_eq_self_iff.mp hn.symm)
  rfl

/-- The ids that a supply has for elements. -/
def Yields (s : IdSupply) (id : String) : Prop := ∃ n, id = (s.advance n).elementId

theorem Leads.yields (h : s.Leads s') : s.Yields s'.elementId := by
  obtain ⟨n, rfl⟩ := h
  exact ⟨n, rfl⟩

/-- The same id, or two that come from a supply. -/
def Swaps (s : IdSupply) (id id' : String) : Prop := id = id' ∨ s.Yields id ∧ s.Yields id'

theorem Swaps.refl (s : IdSupply) (id : String) : s.Swaps id id := .inl rfl

theorem Swaps.trans (h : s.Swaps id id') (h' : s.Swaps id' id'') : s.Swaps id id'' := by
  rcases h with rfl | ⟨hid, hid'⟩
  · exact h'
  · rcases h' with rfl | ⟨-, hid''⟩
    · exact .inr ⟨hid, hid'⟩
    · exact .inr ⟨hid, hid''⟩

end IdSupply

namespace Element

/-! ## Elements but for their ids -/

mutual

/-- The element without its ids. -/
def anonymous : Element α → Element α
  | shape f k s => shape { f with id := "" } k s
  | image f i => image { f with id := "" } i
  | text f t => text { f with id := "" } t
  | group f cs => group { f with id := "" } (anonymousAll cs)

def anonymousAll : List (Element α) → List (Element α)
  | [] => []
  | e :: rest => anonymous e :: anonymousAll rest

end

/-- The same elements, but for ids that come from a supply. -/
structure MatchesAll (s : IdSupply) (es es' : List (Element α)) : Prop where
  rest : anonymousAll es' = anonymousAll es
  ids : List.Forall₂ s.Swaps (allIds es) (allIds es')

/-- The same element, but for ids inside it that come from a supply. -/
structure SameBut (s : IdSupply) (e e' : Element α) : Prop where
  id : e'.id = e.id
  parts : MatchesAll s [e] [e']

variable {s₀ s s' : IdSupply}

theorem MatchesAll.refl (s : IdSupply) (es : List (Element α)) : MatchesAll s es es :=
  ⟨rfl, List.forall₂_same.mpr fun id _ => .refl s id⟩

theorem allIds_cons (e : Element α) (es : List (Element α)) :
    allIds (e :: es) = allIds [e] ++ allIds es := by
  rw [← allIds_append, List.singleton_append]

theorem MatchesAll.cons {e e' : Element α} {es es' : List (Element α)}
    (h : MatchesAll s [e] [e']) (hrest : MatchesAll s es es') :
    MatchesAll s (e :: es) (e' :: es') where
  rest := congrArg₂ List.cons (List.cons.inj h.rest).1 hrest.rest
  ids := by
    rw [allIds_cons e, allIds_cons e']
    exact List.rel_append h.ids hrest.ids

theorem SameBut.refl (s : IdSupply) (e : Element α) : SameBut s e e := ⟨rfl, .refl s [e]⟩

theorem SameBut.trans {e e' e'' : Element α} (h : SameBut s e e') (h' : SameBut s e' e'') :
    SameBut s e e'' :=
  ⟨h'.id.trans h.id, h'.parts.rest.trans h.parts.rest,
    forall₂_comp (fun _ _ _ => .trans) h.parts.ids h'.parts.ids⟩

theorem box_anonymous (e : Element α) : e.anonymous.frame.box = e.frame.box := by
  cases e <;> rfl

theorem SameBut.box {e e' : Element α} (h : SameBut s e e') : e'.frame.box = e.frame.box := by
  rw [← box_anonymous e', ← box_anonymous e, (List.cons.inj h.parts.rest).1]

/-! ## How many ids are drawn -/

theorem exists_missingId (ms : Entries (Json α)) : ∃ n, ∀ s : IdSupply,
    (missingId s ms).2 = s.advance n ∧ (n = 0 → (missingId s ms).1 = []) := by
  cases hid : Entries.has "id" ms with
  | true => exact ⟨0, fun s => by rw [missingId, hid]; exact ⟨rfl, fun _ => rfl⟩⟩
  | false => exact ⟨1, fun s => by rw [missingId, hid]; exact ⟨rfl, nofun⟩⟩

theorem nameMissing_of_kind {room : Nat} {ms : Entries (Json α)} {k : ElementKind}
    (hk : kindOf ms = .ok k) (hroom : ¬ (k = .group ∧ room = 0)) (s : IdSupply) :
    nameMissing room s (.obj ms) =
      if k = .group then
        (.obj ((nameChildren (room - 1) (missingId s ms).2 ms).1 ++ (missingId s ms).1),
          (nameChildren (room - 1) (missingId s ms).2 ms).2)
      else (.obj (ms ++ (missingId s ms).1), (missingId s ms).2) := by
  rw [nameMissing.eq_def]
  simp only [hk, if_neg hroom]

theorem nameAll_cons (room : Nat) (s : IdSupply) (v : Json α) (rest : List (Json α)) :
    nameAll room s (v :: rest)
      = ((nameMissing room s v).1 :: (nameAll room (nameMissing room s v).2 rest).1,
        (nameAll room (nameMissing room s v).2 rest).2) := by
  rw [nameAll]

theorem nameChildren_cons_of_ne {k : String} (hk : k ≠ "children") (room : Nat) (s : IdSupply)
    (v : Json α) (rest : List (String × Json α)) : nameChildren room s ((k, v) :: rest)
      = ((k, v) :: (nameChildren room s rest).1, (nameChildren room s rest).2) := by
  rw [nameChildren.eq_def]
  exact if_neg hk

theorem nameChildren_children (room : Nat) (s : IdSupply) (items : List (Json α))
    (rest : List (String × Json α)) : nameChildren room s (("children", .arr items) :: rest)
      = (("children", .arr (nameAll room s items).1) :: rest, (nameAll room s items).2) := by
  rw [nameChildren.eq_def]
  rfl

/-- What is no element that is read is left alone. -/
theorem nameMissing_of_not_kind {room : Nat} {ms : Entries (Json α)}
    (h : ∀ k, kindOf ms = .ok k → k = .group ∧ room = 0) (s : IdSupply) :
    nameMissing room s (.obj ms) = (.obj ms, s) := by
  rw [nameMissing.eq_def]
  cases hk : kindOf ms with
  | error cause => simp only [hk]
  | ok k => simp only [hk, if_pos (h k hk)]

mutual

/-- As many ids are drawn from one supply as from another, and nothing is changed if none is. -/
theorem exists_missing (room : Nat) (v : Json α) : ∃ n, ∀ s : IdSupply,
    (nameMissing room s v).2 = s.advance n ∧ (n = 0 → (nameMissing room s v).1 = v) := by
  cases v with
  | obj ms =>
    by_cases hnone : ∀ k, kindOf ms = .ok k → k = .group ∧ room = 0
    · exact ⟨0, fun s => by rw [nameMissing_of_not_kind hnone]; exact ⟨rfl, fun _ => rfl⟩⟩
    · push Not at hnone
      obtain ⟨k, hk, hroom⟩ := hnone
      have hroom : ¬ (k = .group ∧ room = 0) := fun h => hroom h.1 h.2
      obtain ⟨m, hm⟩ := exists_missingId ms
      by_cases hgroup : k = .group
      · obtain ⟨n, hn⟩ := exists_missingInside (room - 1) ms
        refine ⟨m + n, fun s => ?_⟩
        rw [nameMissing_of_kind hk hroom, if_pos hgroup]
        refine ⟨?_, fun h => ?_⟩
        · rw [(hn _).1, (hm s).1, s.advance_advance]
        · obtain ⟨rfl, rfl⟩ := Nat.add_eq_zero_iff.mp h
          rw [(hn _).2 rfl, (hm s).2 rfl, List.append_nil]
      · refine ⟨m, fun s => ?_⟩
        rw [nameMissing_of_kind hk hroom, if_neg hgroup]
        exact ⟨(hm s).1, fun h => by rw [(hm s).2 h, List.append_nil]⟩
  | _ => exact ⟨0, fun s => ⟨by rw [nameMissing.eq_def]; rfl, fun _ => by rw [nameMissing.eq_def]⟩⟩

theorem exists_missingInside (room : Nat) (ms : List (String × Json α)) : ∃ n, ∀ s : IdSupply,
    (nameChildren room s ms).2 = s.advance n ∧ (n = 0 → (nameChildren room s ms).1 = ms) := by
  match ms with
  | [] => exact ⟨0, fun s => ⟨by rw [nameChildren]; rfl, fun _ => by rw [nameChildren]⟩⟩
  | (k, v) :: rest =>
    by_cases hk : k = "children"
    · subst hk
      cases v with
      | arr items =>
        obtain ⟨n, hn⟩ := exists_missingAmong room items
        refine ⟨n, fun s => ?_⟩
        rw [nameChildren_children]
        exact ⟨(hn s).1, fun h => by rw [(hn s).2 h]⟩
      | _ =>
        refine ⟨0, fun s => ?_⟩
        rw [nameChildren.eq_def]
        exact ⟨rfl, fun _ => rfl⟩
    · obtain ⟨n, hn⟩ := exists_missingInside room rest
      refine ⟨n, fun s => ?_⟩
      rw [nameChildren_cons_of_ne hk]
      exact ⟨(hn s).1, fun h => by rw [(hn s).2 h]⟩

theorem exists_missingAmong (room : Nat) (vs : List (Json α)) : ∃ n, ∀ s : IdSupply,
    (nameAll room s vs).2 = s.advance n ∧ (n = 0 → (nameAll room s vs).1 = vs) := by
  match vs with
  | [] => exact ⟨0, fun s => ⟨by rw [nameAll]; rfl, fun _ => by rw [nameAll]⟩⟩
  | v :: rest =>
    obtain ⟨m, hm⟩ := exists_missing room v
    obtain ⟨n, hn⟩ := exists_missingAmong room rest
    refine ⟨m + n, fun s => ?_⟩
    rw [nameAll_cons]
    refine ⟨?_, fun h => ?_⟩
    · rw [(hn _).1, (hm s).1, s.advance_advance]
    · obtain ⟨rfl, rfl⟩ := Nat.add_eq_zero_iff.mp h
      rw [(hn _).2 rfl, (hm s).2 rfl]

end

theorem leads_nameMissing (room : Nat) (s : IdSupply) (v : Json α) :
    s.Leads (nameMissing room s v).2 := by
  obtain ⟨n, hn⟩ := exists_missing room v
  exact ⟨n, (hn s).1⟩

theorem leads_missingId (s : IdSupply) (ms : Entries (Json α)) : s.Leads (missingId s ms).2 := by
  obtain ⟨n, hn⟩ := exists_missingId ms
  exact ⟨n, (hn s).1⟩

end Element

/-! ## Reading -/

open Schema

/-- Members that tell the same, the id and the children apart. -/
def TellsAlike (ms ms' : Entries (Json α)) : Prop :=
  ∀ key, key ≠ "id" → key ≠ "children" → Entries.get? key ms' = Entries.get? key ms

namespace TellsAlike

variable {ms ms' : Entries (Json α)} (h : TellsAlike ms ms')

include h

theorem withDefault_eq {β : Type} (key : String) (hid : key ≠ "id") (hchildren : key ≠ "children")
    {default : β} {read : Json α → Checked β} :
    withDefault key default read ms' = withDefault key default read ms := by
  rw [withDefault, h key hid hchildren, withDefault]

theorem kindOf_eq : Element.kindOf ms' = Element.kindOf ms := by
  rw [Element.kindOf, h "type" (by decide) (by decide), Element.kindOf]

variable [Scalar α]

theorem frame {f : Frame α} (hf : Frame.ofMembers ms = .ok f) {id : String}
    (hid : required "id" text ms' = .ok id) : Frame.ofMembers ms' = .ok { f with id } := by
  revert f
  simp only [Frame.ofMembers, Checked.forall_seq, Checked.forall_map]
  intro _ _ x hx y hy width hwidth height hheight rotation hrotation z hz
  rw [hid, h.withDefault_eq "x" (by decide) (by decide), hx,
    h.withDefault_eq "y" (by decide) (by decide), hy,
    h.withDefault_eq "width" (by decide) (by decide), hwidth,
    h.withDefault_eq "height" (by decide) (by decide), hheight,
    h.withDefault_eq "rotation" (by decide) (by decide), hrotation,
    h.withDefault_eq "z_index" (by decide) (by decide), hz]
  rfl

theorem shape_eq : Shape.ofMembers ms' = Shape.ofMembers ms := by
  rw [Shape.ofMembers, Shape.ofMembers,
    h.withDefault_eq "background_color" (by decide) (by decide),
    h.withDefault_eq "border_width" (by decide) (by decide),
    h.withDefault_eq "border_color" (by decide) (by decide),
    h.withDefault_eq "corner_radius" (by decide) (by decide),
    h.withDefault_eq "content" (by decide) (by decide),
    h.withDefault_eq "text_style" (by decide) (by decide),
    h.withDefault_eq "text_range_styles" (by decide) (by decide),
    h.withDefault_eq "arrow_start" (by decide) (by decide),
    h.withDefault_eq "arrow_end" (by decide) (by decide),
    h.withDefault_eq "arrow_head_size" (by decide) (by decide),
    h.withDefault_eq "arrow_tail_width" (by decide) (by decide),
    h.withDefault_eq "arrow_curve" (by decide) (by decide),
    h.withDefault_eq "start_binding" (by decide) (by decide),
    h.withDefault_eq "end_binding" (by decide) (by decide)]

theorem image_eq : Image.ofMembers ms' = Image.ofMembers ms := by
  rw [Image.ofMembers, Image.ofMembers, required, h "src" (by decide) (by decide), required,
    h.withDefault_eq "filter" (by decide) (by decide)]

theorem text_eq : TextBlock.ofMembers ms' = TextBlock.ofMembers ms := by
  rw [TextBlock.ofMembers, TextBlock.ofMembers,
    h.withDefault_eq "content" (by decide) (by decide),
    h.withDefault_eq "style" (by decide) (by decide),
    h.withDefault_eq "range_styles" (by decide) (by decide)]

end TellsAlike

namespace Element

variable {s₀ s s' : IdSupply} {room : Nat} {ms ms' : Entries (Json α)}

theorem get?_append_missingId {key : String} (hkey : key ≠ "id") (s : IdSupply)
    (ms given : Entries (Json α)) :
    Entries.get? key (ms ++ (missingId s given).1) = Entries.get? key ms := by
  have hown : Entries.get? key (missingId s given).1 = none := by
    rw [missingId]
    split
    · rfl
    · rw [Entries.get?, if_neg (Ne.symm hkey), Entries.get?]
  rw [Entries.get?_append, hown, Option.or_none]

theorem tellsAlike_missingId (h : TellsAlike ms ms') (s s' : IdSupply) (given : Entries (Json α)) :
    TellsAlike (ms ++ (missingId s given).1) (ms' ++ (missingId s' given).1) := by
  intro key hid hchildren
  rw [get?_append_missingId hid, get?_append_missingId hid, h key hid hchildren]

/-- The ids of two readings. -/
theorem exists_id (hs : s₀.Leads s) (hs' : s₀.Leads s') {given : Entries (Json α)}
    (h : Entries.get? "id" ms = Entries.get? "id" given)
    (h' : Entries.get? "id" ms' = Entries.get? "id" given) {id : String}
    (hid : required "id" Schema.text (ms ++ (missingId s given).1) = .ok id) :
    ∃ id', required "id" Schema.text (ms' ++ (missingId s' given).1) = .ok id' ∧
      s₀.Swaps id id' := by
  rw [required, Entries.get?_append, h, missingId, Entries.has] at hid
  rw [required, Entries.get?_append, h', missingId, Entries.has]
  cases hgiven : Entries.get? "id" given with
  | some v =>
    rw [hgiven] at hid
    exact ⟨id, hid, .refl s₀ id⟩
  | none =>
    rw [hgiven] at hid
    cases hid
    exact ⟨s'.elementId, rfl, .inr ⟨hs.yields, hs'.yields⟩⟩

theorem allIds_group (f : Frame α) (cs : List (Element α)) :
    allIds [group f cs] = f.id :: allIds cs := by
  simp [allIds, partsOf, parts, Element.id, frame]

variable [Scalar α]

theorem childrenOf_append_missingId (s : IdSupply) (ms given : Entries (Json α)) :
    childrenOf room (ms ++ (missingId s given).1) = childrenOf room ms := by
  rw [childrenOf_eq, childrenOf_eq, get?_append_missingId (by decide)]

theorem childrenOf_cons_of_ne {k : String} (hk : k ≠ "children") (v : Json α)
    (rest : List (String × Json α)) :
    childrenOf room ((k, v) :: rest) = childrenOf room rest := by
  rw [childrenOf.eq_def]
  exact if_neg hk

/-- What is read besides the frame does not depend on ids. -/
theorem exists_leaf {β : Type} (mk : Frame α → β → Element α) {part part' : Checked β}
    (hframe : ∀ f, Frame.ofMembers ms = .ok f →
      ∃ id, Frame.ofMembers ms' = .ok { f with id } ∧ s₀.Swaps f.id id)
    (hpart : part' = part) (hids : ∀ f x, allIds [mk f x] = [f.id])
    (hanonymous : ∀ f x id, (mk { f with id } x).anonymous = (mk f x).anonymous)
    {e : Element α} (he : (mk <$> Frame.ofMembers ms <*> part) = .ok e) :
    ∃ e', (mk <$> Frame.ofMembers ms' <*> part') = .ok e' ∧ MatchesAll s₀ [e] [e'] := by
  obtain ⟨_, x, hread, rfl, rfl⟩ := Checked.seq_eq_ok_iff.mp he
  obtain ⟨f, hf, rfl⟩ := Checked.map_eq_ok_iff.mp hread
  obtain ⟨id, hf', hswap⟩ := hframe f hf
  refine ⟨mk { f with id } x, by rw [hf', hpart]; rfl, ?_, ?_⟩
  · exact congrArg (fun e => [e]) (hanonymous f x id)
  · rw [hids, hids]
    exact .cons hswap .nil

theorem exists_ofJson (h : TellsAlike ms ms')
    (hid : ∀ id, required "id" Schema.text ms = .ok id →
      ∃ id', required "id" Schema.text ms' = .ok id' ∧ s₀.Swaps id id')
    (hchildren : ∀ cs, childrenOf (room - 1) ms = .ok cs →
      ∃ cs', childrenOf (room - 1) ms' = .ok cs' ∧ MatchesAll s₀ cs cs')
    {e : Element α} (he : ofJson room (.obj ms) = .ok e) :
    ∃ e', ofJson room (.obj ms') = .ok e' ∧ MatchesAll s₀ [e] [e'] := by
  have hframe (f : Frame α) (hf : Frame.ofMembers ms = .ok f) :
      ∃ id, Frame.ofMembers ms' = .ok { f with id } ∧ s₀.Swaps f.id id := by
    have hown : required "id" Schema.text ms = .ok f.id := by
      revert f
      simp only [Frame.ofMembers, Checked.forall_seq, Checked.forall_map]
      intro _ hown _ _ _ _ _ _ _ _ _ _ _ _
      exact hown
    obtain ⟨id, hid', hswap⟩ := hid f.id hown
    exact ⟨id, h.frame hf hid', hswap⟩
  have hkind := kind_of_ofJson he
  have hkind' := h.kindOf_eq.trans hkind
  rw [ofJson, hkind] at he
  rw [ofJson, hkind']
  cases e with
  | shape f k s =>
    obtain ⟨e', he', hmatch⟩ := exists_leaf (fun f s => shape f k s) hframe h.shape_eq
      (fun _ _ => rfl) (fun _ _ _ => rfl) (Checked.under_eq_ok_iff.mp he)
    exact ⟨e', Checked.under_eq_ok_iff.mpr he', hmatch⟩
  | image f i =>
    obtain ⟨e', he', hmatch⟩ := exists_leaf image hframe h.image_eq
      (fun _ _ => rfl) (fun _ _ _ => rfl) (Checked.under_eq_ok_iff.mp he)
    exact ⟨e', Checked.under_eq_ok_iff.mpr he', hmatch⟩
  | text f t =>
    obtain ⟨e', he', hmatch⟩ := exists_leaf text hframe h.text_eq
      (fun _ _ => rfl) (fun _ _ _ => rfl) (Checked.under_eq_ok_iff.mp he)
    exact ⟨e', Checked.under_eq_ok_iff.mpr he', hmatch⟩
  | group f cs =>
    simp only [kind] at he ⊢
    split at he
    · contradiction
    · next hroom =>
      simp only [Checked.under_eq_ok_iff, Checked.seq_eq_ok_iff, Checked.map_eq_ok_iff] at he
      obtain ⟨_, _, ⟨f', hf, rfl⟩, hcs, heq⟩ := he
      cases heq
      obtain ⟨id, hf', hswap⟩ := hframe _ hf
      obtain ⟨cs', hcs', hmatches⟩ := hchildren cs hcs
      simp only [if_neg hroom, hf', hcs', Checked.map_ok, Checked.seq_ok, Checked.under_ok]
      refine ⟨_, rfl, congrArg (fun cs => [group _ cs]) hmatches.rest, ?_⟩
      rw [allIds_group, allIds_group]
      exact .cons hswap hmatches.ids

mutual

/-- What is read does not depend on the supply, but for the ids that come from it. -/
theorem exists_ofJson_nameMissing (s s' : IdSupply) (hs : s₀.Leads s) (hs' : s₀.Leads s')
    (room : Nat) (v : Json α) (e : Element α) (h : ofJson room (nameMissing room s v).1 = .ok e) :
    ∃ e', ofJson room (nameMissing room s' v).1 = .ok e' ∧ MatchesAll s₀ [e] [e'] := by
  cases v with
  | obj ms =>
    by_cases hnone : ∀ k, kindOf ms = .ok k → k = .group ∧ room = 0
    · rw [nameMissing_of_not_kind hnone] at h ⊢
      exact ⟨e, h, .refl s₀ [e]⟩
    · push Not at hnone
      obtain ⟨k, hk, hroom⟩ := hnone
      have hroom : ¬ (k = .group ∧ room = 0) := fun h => hroom h.1 h.2
      rw [nameMissing_of_kind hk hroom] at h ⊢
      by_cases hgroup : k = .group
      · rw [if_pos hgroup] at h ⊢
        have hkept (s : IdSupply) (key : String) (hkey : key ≠ "children") :
            Entries.get? key (nameChildren (room - 1) s ms).1 = Entries.get? key ms :=
          get?_nameChildren (Ne.symm hkey) (room - 1) s ms
        refine exists_ofJson ?_ ?_ ?_ h
        · exact tellsAlike_missingId (fun key _ hkey => by rw [hkept _ key hkey, hkept _ key hkey])
            s s' ms
        · exact fun id => exists_id hs hs' (hkept _ "id" (by decide)) (hkept _ "id" (by decide))
        · intro cs hcs
          rw [childrenOf_append_missingId] at hcs ⊢
          exact exists_childrenOf_nameChildren _ _ (hs.trans (leads_missingId s ms))
            (hs'.trans (leads_missingId s' ms)) (room - 1) ms cs hcs
      · rw [if_neg hgroup] at h ⊢
        refine exists_ofJson (tellsAlike_missingId (fun _ _ _ => rfl) s s' ms)
          (fun id => exists_id hs hs' rfl rfl) (fun cs hcs => ?_) h
        rw [childrenOf_append_missingId] at hcs ⊢
        exact ⟨cs, hcs, .refl s₀ cs⟩
  | _ =>
    rw [nameMissing.eq_def] at h ⊢
    exact ⟨e, h, .refl s₀ [e]⟩

theorem exists_childrenOf_nameChildren (s s' : IdSupply) (hs : s₀.Leads s) (hs' : s₀.Leads s')
    (room : Nat) (ms : List (String × Json α)) (cs : List (Element α))
    (h : childrenOf room (nameChildren room s ms).1 = .ok cs) :
    ∃ cs', childrenOf room (nameChildren room s' ms).1 = .ok cs' ∧ MatchesAll s₀ cs cs' := by
  match ms with
  | [] =>
    rw [nameChildren] at h ⊢
    exact ⟨cs, h, .refl s₀ cs⟩
  | (k, v) :: rest =>
    by_cases hk : k = "children"
    · subst hk
      cases v with
      | arr items =>
        rw [nameChildren_children] at h
        obtain ⟨cs', hcs', hmatch⟩ := exists_ofJsons_nameAll s s' hs hs' room 0 items cs
          (Checked.under_eq_ok_iff.mp h)
        rw [nameChildren_children]
        exact ⟨cs', Checked.under_eq_ok_iff.mpr hcs', hmatch⟩
      | _ =>
        rw [nameChildren.eq_def] at h ⊢
        exact ⟨cs, h, .refl s₀ cs⟩
    · rw [nameChildren_cons_of_ne hk, childrenOf_cons_of_ne hk] at h
      rw [nameChildren_cons_of_ne hk]
      simp only [childrenOf_cons_of_ne hk]
      exact exists_childrenOf_nameChildren s s' hs hs' room rest cs h

theorem exists_ofJsons_nameAll (s s' : IdSupply) (hs : s₀.Leads s) (hs' : s₀.Leads s')
    (room start : Nat) (vs : List (Json α)) (es : List (Element α))
    (h : ofJsons room start (nameAll room s vs).1 = .ok es) :
    ∃ es', ofJsons room start (nameAll room s' vs).1 = .ok es' ∧ MatchesAll s₀ es es' := by
  match vs with
  | [] =>
    rw [nameAll] at h ⊢
    exact ⟨es, h, .refl s₀ es⟩
  | v :: rest =>
    rw [nameAll_cons] at h ⊢
    simp only [ofJsons, Checked.seq_eq_ok_iff, Checked.map_eq_ok_iff, Checked.under_eq_ok_iff] at h
    obtain ⟨_, es, ⟨e, he, rfl⟩, hes, rfl⟩ := h
    obtain ⟨e', he', hmatch⟩ := exists_ofJson_nameMissing s s' hs hs' room v e he
    obtain ⟨es', hes', hmatches⟩ := exists_ofJsons_nameAll _ _
      (hs.trans (leads_nameMissing room s v)) (hs'.trans (leads_nameMissing room s' v)) room
      (start + 1) rest es hes
    refine ⟨e' :: es', ?_, hmatch.cons hmatches⟩
    rw [ofJsons, he', hes']
    rfl

end

/-! ## Changes -/

variable {e x : Element α} {changes : Changes α} {t : IdSupply}

theorem leads_apply (s : IdSupply) (e : Element α) (changes : Changes α) :
    s.Leads (e.apply s changes).2 := by
  unfold apply
  split
  · exact .refl s
  · exact leads_nameMissing maxNesting s (.obj _)

/-- What comes of changes does not depend on the supply, but for the ids that come from it. -/
theorem apply_of_leads (hs : s₀.Leads s) (hs' : s₀.Leads s')
    (h : e.apply s changes = (.ok x, t)) :
    ∃ y t', e.apply s' changes = (.ok y, t') ∧ SameBut s₀ x y := by
  have hid := id_of_apply h
  unfold apply at h
  split at h
  · cases h
  · next changes' hcompleted =>
    have hread := Checked.toEdit_eq_ok_iff.mp (congrArg Prod.fst h)
    obtain ⟨y, hy, hmatch⟩ := exists_ofJson_nameMissing s s' hs hs' maxNesting (.obj _) x hread
    have happly : e.apply s' changes
        = (.ok y, (nameMissing maxNesting s' (.obj (Entries.merge e.toMembers changes'))).2) := by
      rw [apply, hcompleted]
      exact Prod.ext (Checked.toEdit_eq_ok_iff.mpr hy) rfl
    exact ⟨y, _, happly, (id_of_apply happly).trans hid.symm, hmatch⟩

/-- Where changes ask for no id, nothing depends on the supply. -/
theorem apply_of_idle (h : (e.apply s changes).2 = s) (s' : IdSupply) :
    e.apply s' changes = ((e.apply s changes).1, s') := by
  unfold apply at h ⊢
  split
  · rfl
  · next changes' hcompleted =>
    rw [hcompleted] at h
    obtain ⟨n, hn⟩ := exists_missing maxNesting (.obj (Entries.merge e.toMembers changes'))
    obtain rfl : n = 0 := IdSupply.advance_eq_self_iff.mp ((hn s).1.symm.trans h)
    have hnamed (s : IdSupply) :
        nameMissing maxNesting s (.obj (Entries.merge e.toMembers changes'))
          = (.obj (Entries.merge e.toMembers changes'), s) := Prod.ext ((hn s).2 rfl) (hn s).1
    simp only [read, hnamed]

theorem leads_applyEach (changesOf : Element α → Option (Changes α)) (s : IdSupply)
    (es : List (Element α)) : s.Leads (applyEach changesOf s es).2.2 := by
  induction es generalizing s with
  | nil => exact .refl s
  | cons e rest ih =>
    rw [applyEach]
    split
    · exact ih s
    · next changes _ =>
      have hown := leads_apply s e changes
      split
      · next happly => rwa [happly] at hown
      · next happly =>
        rw [happly] at hown
        exact hown.trans (ih _)

/-- Where one after the other was changed and no id was drawn, none of the changes asks for one. -/
theorem idle_of_applyEach {changesOf : Element α → Option (Changes α)} {es es' : List (Element α)}
    (h : applyEach changesOf s es = (none, es', s)) :
    ∀ e ∈ es, ∀ changes ∈ changesOf e, ∀ s', (e.apply s' changes).2 = s' := by
  induction es generalizing es' with
  | nil => exact nofun
  | cons e rest ih =>
    rw [applyEach] at h
    split at h
    · next hnone =>
      rcases hrest : applyEach changesOf s rest with ⟨failure, rest', t⟩
      rw [hrest] at h
      cases h
      refine List.forall_mem_cons.mpr ⟨fun changes hchanges => ?_, ih hrest⟩
      rw [hnone] at hchanges
      contradiction
    · next changes hchanges =>
      split at h
      · cases h
      · next e₁ s₁ happly =>
        rcases hrest : applyEach changesOf s₁ rest with ⟨failure, rest', t⟩
        rw [hrest] at h
        cases h
        -- what leads away and back again has not moved
        have hown := leads_apply s e changes
        have hback := leads_applyEach changesOf s₁ rest
        rw [happly] at hown
        rw [hrest] at hback
        obtain rfl : s₁ = s := hown.eq_of_leads hback
        refine List.forall_mem_cons.mpr ⟨fun changes' hchanges' s' => ?_, ih hrest⟩
        rw [hchanges] at hchanges'
        cases hchanges'
        have hidle : (e.apply s₁ changes).2 = s₁ := congrArg Prod.snd happly
        rw [apply_of_idle hidle]

/-- A group with no child is given one that lacks an id. -/
theorem exists_apply_child {f : Frame α} (hf : f.Valid) (s : IdSupply) :
    ∃ x, (group f []).apply s [("children", .arr [.obj [("type", .str "group")]])]
      = (.ok x, s.next) ∧ allIds [x] = [f.id, s.elementId] := by
  have hframe : Frame.ofMembers [("type", .str "group"), ("id", .str s.elementId)]
      = .ok (⟨s.elementId, 0, 0, 0, 0, 0, 0⟩ : Frame α) := rfl
  have hkind : kindOf (α := α) [("type", .str "group"), ("id", .str s.elementId)]
      = .ok .group := rfl
  have hchild : ofJson (maxNesting - 1) (.obj [("type", .str "group"), ("id", .str s.elementId)])
      = .ok (group (⟨s.elementId, 0, 0, 0, 0, 0, 0⟩ : Frame α) []) := by
    rw [ofJson, hkind]
    simp only [hframe]
    rfl
  have hread : ofJson maxNesting (.obj (f.toMembers ++ kindMember .group
        ++ [("children", .arr [.obj [("type", .str "group"), ("id", .str s.elementId)]])]))
      = .ok (group f [group ⟨s.elementId, 0, 0, 0, 0, 0, 0⟩ []]) := by
    rw [ofJson, kindOf_append]
    simp only [Frame.ofMembers_append hf, childrenOf_append, ofJsons, hchild]
    rfl
  have happly : (group f []).apply s [("children", .arr [.obj [("type", .str "group")]])]
      = ((ofJson maxNesting (.obj (f.toMembers ++ kindMember .group
        ++ [("children", .arr [.obj [("type", .str "group"), ("id", .str s.elementId)]])]))).toEdit,
        s.next) := rfl
  rw [happly, hread]
  exact ⟨_, rfl, rfl⟩

end Element

end Whiteboard
