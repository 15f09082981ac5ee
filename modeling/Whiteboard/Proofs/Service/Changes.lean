import Whiteboard.Proofs.Document.Rebinding
import Whiteboard.Proofs.Document.Stumble
import Whiteboard.Proofs.Scalar.Double
import Whiteboard.Service

/-!
# Requests with changes

How requests that change elements are answered, whatever the changes hold: with success, with a
refusal, or that nothing is there. A request is only left without an answer where an element
stumbles over its changes before they are checked, or where what came of them cannot be copied or
written (`Service.answered_of_changes`). The service takes the next request all the same
(`Service.response_of_run`).
-/

namespace Whiteboard

variable {α : Type} [Scalar α]

namespace Board

variable {b c : Board α} {batch : Batch α} {err : EditError}

/-- What a refused batch tells is what the checks found, or what an element stumbled over. -/
theorem refusal_of_applyBatch (h : b.applyBatch batch = (.error err, c)) :
    (∃ issues, err = .invalid issues) ∨ ∃ e ∈ b.elements, ∃ changes,
      batch.changesOf e = some changes ∧ e.stumble? changes = some err := by
  unfold applyBatch at h
  split at h
  · cases h
  · next happly =>
    cases h
    exact Element.refusal_of_applyEach happly

/-- Arrows that follow stumble over nothing. -/
theorem refusal_of_followBatch (h : b.followBatch batch = (.error err, c)) :
    ∃ issues, err = .invalid issues := by
  rcases refusal_of_applyBatch h with hissues | ⟨e, -, changes, hchanges, hstumble⟩
  · exact hissues
  · have hmem := List.mem_of_mem_filter (Entries.mem_of_get? hchanges)
    obtain ⟨e', g, -, hm⟩ := Element.exists_of_mem_rebindings hmem
    have hg : changes = g.toChanges := congrArg Prod.snd hm
    rw [hg, Element.stumble?_toChanges] at hstumble
    contradiction

/-- Arrows follow if they are to, and the edit ends. -/
theorem refusal_of_followed {β : Type} {rebind : Bool} {v : β}
    (h : ((if rebind then b.followBatch batch else (.ok (), b)).andThen
      fun _ d => (.ok v, d.changed)) = (.error err, c)) : ∃ issues, err = .invalid issues := by
  cases rebind with
  | false => cases h
  | true =>
    generalize hfollow : b.followBatch batch = o at h
    obtain ⟨err' | _, d⟩ := o
    · cases h
      exact refusal_of_followBatch hfollow
    · cases h

theorem refusal_of_update {id : String} {changes : Changes α} {rebind : Bool}
    (h : b.update id changes rebind = (.error err, c)) :
    (∃ issues, err = .invalid issues) ∨
      ∃ e ∈ b.elements, e.id = id ∧ e.stumble? changes = some err := by
  unfold Board.update at h
  split at h
  · next happly =>
    cases h
    rcases Element.refusal_of_applyEach happly with hissues | ⟨e, he, changes', hchanges, hstumble⟩
    · exact .inl hissues
    · rw [Batch.changesOf_singleton] at hchanges
      split at hchanges
      · next hid =>
        cases hchanges
        exact .inr ⟨e, he, hid.symm, hstumble⟩
      · contradiction
  · dsimp only at h
    split at h
    · cases h
    · exact .inl (refusal_of_followed h)

theorem refusal_of_updateAll {rebind : Bool} (h : b.updateAll batch rebind = (.error err, c)) :
    (∃ issues, err = .invalid issues) ∨ ∃ e ∈ b.elements, ∃ changes,
      batch.changesOf e = some changes ∧ e.stumble? changes = some err := by
  unfold Board.updateAll at h
  split at h
  · cases h
  · generalize happly : b.applyBatch batch = o at h
    obtain ⟨err' | _, d⟩ := o
    · cases h
      exact refusal_of_applyBatch happly
    · exact .inl (refusal_of_followed h)

end Board

namespace Service

/-- A request is answered: with success, with a refusal, or that nothing is there. -/
def Answered (a : Answer α) : Prop := ∃ r, a.1 = .ok r ∧ r.status ∈ [200, 400, 404]

/-- An element stumbles over what no client is told of. -/
theorem detail?_of_stumble? {e : Element α} {changes : Changes α} {err : EditError}
    (h : e.stumble? changes = some err) : err.detail? = none := by
  unfold Element.stumble? at h
  split at h
  · split at h <;> cases h
    rfl
  · split at h <;> cases h
    rfl
  · contradiction

/-- Whether an answer can be written changes nothing. -/
theorem service_written (a : Answer α) : (written a).2 = a.2 := by
  obtain ⟨e | r, s⟩ := a
  · rfl
  · rw [written]
    split <;> rfl

/-- A response is written, unless a number in it is not finite. -/
theorem answered_or_unwritable {r : Response α} (hstatus : r.status ∈ [200, 400, 404])
    (s : Service α) :
    Answered (written (s.tell r)) ∨ ((written (s.tell r)).1 = .error .unwritable ∧
      ¬ r.body.All fun x => Scalar.isFinite x = true) := by
  unfold written tell
  dsimp only
  split
  · exact .inl ⟨r, rfl, hstatus⟩
  · next hbody => exact .inr ⟨rfl, fun hall => hbody (List.all_eq_true.mpr hall)⟩

theorem answered_problem {status : Nat} (hstatus : status ∈ [200, 400, 404]) (detail : String)
    (s : Service α) : Answered (written (s.tell (.problem status detail))) :=
  (answered_or_unwritable (r := .problem status detail) hstatus s).resolve_right fun h =>
    h.2 (by simp [Response.body])

theorem answered_success (value : Json α) (s : Service α) :
    Answered (written (s.tell (.success value))) ∨
      ((written (s.tell (.success value))).1 = .error .unwritable ∧
        ¬ value.All fun x => Scalar.isFinite x = true) :=
  answered_or_unwritable (r := .success value) List.mem_cons_self s

section Edits

variable {β : Type} {go : β → Service α → Answer α}

omit [Scalar α] in
/-- What no client is told of is not answered. -/
theorem granted_of_error (s : Service α) {o : Outcome α β} {err : EditError}
    (ho : o.1 = .error err) (hsilent : err.detail? = none) :
    s.granted o go = (s.withBoard o.2).fail (.edit err) := by
  obtain ⟨v, c⟩ := o
  cases ho
  rw [granted, hsilent]

omit [Scalar α] in
/-- An edit leaves its board to the service, whether it is granted or refused. -/
theorem service_granted (s : Service α) (o : Outcome α β) (hgo : ∀ v s, (go v s).2 = s) :
    (s.granted o go).2 = s.withBoard o.2 := by
  obtain ⟨err | v, c⟩ := o
  · unfold granted
    dsimp only
    split <;> rfl
  · exact hgo v _

/-- An edit is refused without an answer or with one, or what it yields is answered. -/
theorem granted_cases (s : Service α) {o : Outcome α β} {P : EditError → Prop}
    (hsilent : ∀ err, P err → err.detail? = none)
    (hrefused : ∀ err c, o = (.error err, c) → (∃ issues, err = .invalid issues) ∨ P err) :
    (∃ err, P err ∧ (written (s.granted o go)).1 = .error (.edit err)) ∨
      Answered (written (s.granted o go)) ∨
      ∃ v c, o = (.ok v, c) ∧ s.granted o go = go v (s.withBoard c) := by
  obtain ⟨err | v, c⟩ := o
  · rcases hrefused err c rfl with ⟨issues, rfl⟩ | herr
    · exact .inr (.inl (answered_problem (by decide) (Issue.count issues) _))
    · refine .inl ⟨err, herr, ?_⟩
      rw [s.granted_of_error rfl (hsilent err herr)]
      rfl
  · exact .inr (.inr ⟨v, c, rfl, rfl⟩)

end Edits

variable (s : Service α)

omit [Scalar α] in
/-- A board is shown unless its groups are nested too deep to be copied. -/
theorem show?_cases :
    (Element.nestingOf s.board.elements ≤ Board.maxCopyNesting ∧
        s.show? [] = s.tell (.done [("canvas", s.board.document.toJson)])) ∨
      (Board.maxCopyNesting < Element.nestingOf s.board.elements ∧
        s.show? [] = s.fail (.edit .tooDeep)) := by
  rw [show?, withSnapshot, Board.snapshot, Board.copyable]
  by_cases hdeep : Element.nestingOf s.board.elements ≤ Board.maxCopyNesting
  · rw [if_pos hdeep]
    exact .inl ⟨hdeep, rfl⟩
  · rw [if_neg hdeep]
    exact .inr ⟨Nat.lt_of_not_le hdeep, rfl⟩

omit [Scalar α] in
/-- To show a board changes nothing. -/
theorem service_show? : (s.show? []).2 = s := by
  rcases s.show?_cases with ⟨-, hshown⟩ | ⟨-, hrefused⟩
  · rw [hshown]
    rfl
  · rw [hrefused]
    rfl

theorem service_update (id : String) (changes : Changes α) :
    (s.update id changes).2 = s.withBoard (s.board.update id changes true).2 :=
  s.service_granted _ fun e? _ => by cases e? <;> rfl

theorem service_updateAll (batch : Batch α) :
    (s.updateAll batch).2 = s.withBoard (s.board.updateAll batch true).2 :=
  s.service_granted _ fun _ s => s.service_show?

/-- How changes of one element are answered. -/
theorem update_cases (id : String) (changes : Changes α) :
    (∃ err, (∃ e ∈ s.board.elements, e.id = id ∧ e.stumble? changes = some err) ∧
        (written (s.update id changes)).1 = .error (.edit err)) ∨
      Answered (written (s.update id changes)) ∨
      ∃ e, (s.board.update id changes true).1 = .ok (some e) ∧ ¬ e.Finite ∧
        (written (s.update id changes)).1 = .error .unwritable := by
  rcases s.granted_cases (o := s.board.update id changes true)
      (fun err ⟨_, _, _, hstumble⟩ => detail?_of_stumble? hstumble)
      (fun _ _ => Board.refusal_of_update) with hsilent | hanswered | ⟨e?, c, hupdate, hgo⟩
  · exact .inl hsilent
  · exact .inr (.inl hanswered)
  · have hgo : s.update id changes = _ := hgo
    rw [hgo, hupdate]
    right
    cases e? with
    | none => exact .inl (answered_problem (by decide) _ _)
    | some e =>
      rcases answered_success (.obj [("success", .bool true), ("element", e.toJson)])
        (s.withBoard c) with hanswered | ⟨hunwritable, hinfinite⟩
      · exact .inl hanswered
      · refine .inr ⟨e, rfl, fun hfin => hinfinite ?_, hunwritable⟩
        have hall : e.toJson.All fun x => Scalar.isFinite x = true := hfin
        simpa using hall

/-- How changes of several elements are answered. -/
theorem updateAll_cases (batch : Batch α) :
    (∃ err, (∃ e ∈ s.board.elements, ∃ changes,
          batch.changesOf e = some changes ∧ e.stumble? changes = some err) ∧
        (written (s.updateAll batch)).1 = .error (.edit err)) ∨
      Answered (written (s.updateAll batch)) ∨
      ∃ b, s.board.updateAll batch true = (.ok (), b) ∧
        ((Board.maxCopyNesting < Element.nestingOf b.elements ∧
            (written (s.updateAll batch)).1 = .error (.edit .tooDeep)) ∨
          (¬ b.document.Finite ∧ (written (s.updateAll batch)).1 = .error .unwritable)) := by
  rcases s.granted_cases (o := s.board.updateAll batch true)
      (fun err ⟨_, _, _, _, hstumble⟩ => detail?_of_stumble? hstumble)
      (fun _ _ => Board.refusal_of_updateAll) with hsilent | hanswered | ⟨v, b, hupdate, hgo⟩
  · exact .inl hsilent
  · exact .inr (.inl hanswered)
  · have hgo : s.updateAll batch = (s.withBoard b).show? [] := hgo
    rw [hgo, hupdate]
    right
    rcases (s.withBoard b).show?_cases with ⟨-, hshown⟩ | ⟨hdeep, hrefused⟩
    · rw [hshown]
      rcases answered_success (.obj [("success", .bool true), ("canvas", b.document.toJson)])
        (s.withBoard b) with hanswered | ⟨hunwritable, hinfinite⟩
      · exact .inl hanswered
      · refine .inr ⟨b, rfl, .inr ⟨fun hfin => hinfinite ?_, hunwritable⟩⟩
        have hall : b.document.toJson.All fun x => Scalar.isFinite x = true := hfin
        simpa using hall
    · rw [hrefused]
      exact .inr ⟨b, rfl, .inl ⟨hdeep, rfl⟩⟩

variable [NumberText α] {r : Request α}

theorem answer_update {id : String} {changes : Changes α}
    (hfind : Endpoint.find r.verb r.target.path = .ok (.update id))
    (hbody : r.payload.toJson? = .ok (some (.obj changes))) :
    s.answer r = written (s.update id changes) := by
  rw [answer, hfind]
  change written (s.withBody (Schema.members .mapExpected) r fun changes => s.update id changes) = _
  rw [withBody, hbody]
  rfl

theorem answer_updateAll {v : Json α} {batch : Batch α}
    (hfind : Endpoint.find r.verb r.target.path = .ok .updateAll)
    (hbody : r.payload.toJson? = .ok (some v)) (hread : Body.record Body.readBatch v = .ok batch) :
    s.answer r = written (s.updateAll batch) := by
  rw [answer, hfind]
  change written (s.withBody (Body.record Body.readBatch) r fun batch => s.updateAll batch) = _
  rw [withBody, hbody]
  dsimp only
  rw [hread]
  rfl

/-- Changes of whatever values lead to an element that passed the checks, under the same id, or are
refused for what the checks found, unless the element stumbles over them. So requests with changes
are answered with success, a refusal or that nothing is there, unless an element stumbles, a number
that is not finite is to be written, or what was made is nested too deep to be handed out. Whether
there is an answer or not, the service goes on with the board that the edit left. -/
theorem answered_of_changes [LawfulScalar α] :
    (∀ (ids : IdSupply) (e : Element α) (changes : Changes α),
      match e.stumble? changes with
      | some err => e.apply ids changes = (.error err, ids) ∧ err.detail? = none
      | none =>
        (∃ e' ids', e.apply ids changes = (.ok e', ids') ∧ e'.Admitted ∧ e'.Proper ∧
            e'.id = e.id) ∨
          ∃ issues ids', e.apply ids changes = (.error (.invalid issues), ids')) ∧
    (∀ (s : Service α) (r : Request α) (id : String) (changes : Changes α),
      Endpoint.find r.verb r.target.path = .ok (.update id) →
      r.payload.toJson? = .ok (some (.obj changes)) →
      (s.answer r).2 = s.withBoard (s.board.update id changes true).2 ∧
      ((∃ err, (∃ e ∈ s.board.elements, e.id = id ∧ e.stumble? changes = some err) ∧
          (s.answer r).1 = .error (.edit err)) ∨
        Answered (s.answer r) ∨
        ∃ e, (s.board.update id changes true).1 = .ok (some e) ∧ ¬ e.Finite ∧
          (s.answer r).1 = .error .unwritable)) ∧
    (∀ (s : Service α) (r : Request α) (v : Json α) (batch : Batch α),
      Endpoint.find r.verb r.target.path = .ok .updateAll →
      r.payload.toJson? = .ok (some v) → Body.record Body.readBatch v = .ok batch →
      (s.answer r).2 = s.withBoard (s.board.updateAll batch true).2 ∧
      ((∃ err, (∃ e ∈ s.board.elements, ∃ changes,
            batch.changesOf e = some changes ∧ e.stumble? changes = some err) ∧
          (s.answer r).1 = .error (.edit err)) ∨
        Answered (s.answer r) ∨
        ∃ b, s.board.updateAll batch true = (.ok (), b) ∧
          ((Board.maxCopyNesting < Element.nestingOf b.elements ∧
              (s.answer r).1 = .error (.edit .tooDeep)) ∨
            (¬ b.document.Finite ∧ (s.answer r).1 = .error .unwritable)))) := by
  refine ⟨fun ids e changes => ?_, fun s r id changes hfind hbody => ?_,
    fun s r v batch hfind hbody hread => ?_⟩
  · cases hstumble : e.stumble? changes with
    | some err =>
      exact ⟨Element.apply_of_stumble? hstumble ids, detail?_of_stumble? hstumble⟩
    | none =>
      rcases Element.apply_of_stumble?_eq_none hstumble ids with
        ⟨e', ids', happly, hadmitted, hid⟩ | hissues
      · exact .inl ⟨e', ids', happly, hadmitted, hadmitted.proper, hid⟩
      · exact .inr hissues
  · rw [answer_update s hfind hbody]
    exact ⟨(service_written _).trans (s.service_update id changes), s.update_cases id changes⟩
  · rw [answer_updateAll s hfind hbody hread]
    exact ⟨(service_written _).trans (s.service_updateAll batch), s.updateAll_cases batch⟩

section Runs

variable (reaches : String → Bool)

/-- Later events change nothing of what came of earlier ones. -/
theorem run_append (es es' : List (Event α)) :
    s.run reaches (es ++ es') =
      ((s.run reaches es).1 ++ ((s.run reaches es).2.run reaches es').1,
        ((s.run reaches es).2.run reaches es').2) := by
  induction es generalizing s with
  | nil => rfl
  | cons e es ih => simp only [List.cons_append, run, ih]

theorem length_run (es : List (Event α)) : (s.run reaches es).1.length = es.length := by
  induction es generalizing s with
  | nil => rfl
  | cons e es ih => simp only [run, List.length_cons, ih]

/-- In a run each request is answered by the service that the events before it left, whether those
had answers or not. -/
theorem response_of_run (es es' : List (Event α)) (r : Request α) :
    ((s.run reaches (es ++ .request r :: es')).1[es.length]?).map Reaction.response
      = some (((s.run reaches es).2.answer r).1.map some) := by
  rw [run_append, List.getElem?_append_right (s.length_run reaches es).le, length_run, Nat.sub_self]
  rfl

end Runs

/-- A service with elements on its board. -/
def ofElements (es : List (Element Double)) : Service Double :=
  let settings : Settings Double := ⟨"INFO", false, "", 0, [], .ofText "", 50, 15, 5, 150, 250⟩
  (Service.start settings (.ofText "/") (.ofText "/") .counting ⟨[], []⟩).withBoard
    (.start .counting es .initial 50)

/-- An arrow that follows a circle, which is changed alone and in a batch. -/
theorem answered_of_changes_circle :
    let s := ofElements [.newShape "c" .circle { x := 0, y := 0 },
      .shape ⟨"a", 150, 75, 50, 10, 0, 0⟩ .arrow
        { Shape.blankArrow with
          start := some ⟨0, 0⟩
          finish := some ⟨50, 10⟩
          startBinding := some ⟨"c", .right⟩ }]
    let changes : Changes Double := [("id", .str "d"), ("width", .int 20), ("style", .int 5)]
    let one : Request Double := ⟨.patch, ⟨["api", "elements", "c"], []⟩, .value (.obj changes)⟩
    let v : Json Double := .obj [("updates", .obj [("c", .obj changes)])]
    let all : Request Double := ⟨.post, ⟨["api", "elements", "batch"], []⟩, .value v⟩
    Endpoint.find one.verb one.target.path = .ok (.update "c") ∧
      one.payload.toJson? = .ok (some (.obj changes)) ∧ Answered (s.answer one) ∧
      Endpoint.find all.verb all.target.path = .ok .updateAll ∧
      all.payload.toJson? = .ok (some v) ∧ Body.record Body.readBatch v = .ok [("c", changes)] ∧
      Answered (s.answer all) := by
  intro s changes one v all
  have hnone : ∀ e ∈ s.board.elements, e.id = "c" → e.stumble? changes = none := by decide +kernel
  refine ⟨rfl, rfl, ?_, rfl, rfl, rfl, ?_⟩
  · rcases (answered_of_changes.2.1 s one "c" changes rfl rfl).2 with
      ⟨err, ⟨e, he, hid, hstumble⟩, -⟩ | hanswered | ⟨e, hupdate, hinfinite, -⟩
    · rw [hnone e he hid] at hstumble
      contradiction
    · exact hanswered
    · have hfinite : ((s.board.update "c" changes true).1.toOption.join.all fun e =>
          e.toJson.numbers.all Scalar.isFinite) = true := by decide +kernel
      rw [hupdate] at hfinite
      exact absurd (List.all_eq_true.mp hfinite) hinfinite
  · rcases (answered_of_changes.2.2 s all v [("c", changes)] rfl rfl rfl).2 with
      ⟨err, ⟨e, he, changes', hchanges, hstumble⟩, -⟩ | hanswered |
        ⟨b, hupdate, ⟨hdeep, -⟩ | ⟨hinfinite, -⟩⟩
    · rw [Batch.changesOf_singleton] at hchanges
      split at hchanges
      · next hid =>
        cases hchanges
        rw [hnone e he hid.symm] at hstumble
        contradiction
      · contradiction
    · exact hanswered
    · have hflat : Element.nestingOf (s.board.updateAll [("c", changes)] true).2.elements
          ≤ Board.maxCopyNesting := by decide +kernel
      rw [hupdate] at hflat
      exact absurd hdeep (Nat.not_lt.mpr hflat)
    · have hfinite : (s.board.updateAll [("c", changes)] true).2.document.Finite := by
        decide +kernel
      rw [hupdate] at hfinite
      exact absurd hfinite hinfinite

/-- A text is given a number as its style, and an arrow a width beyond all numbers. There is no
answer, and the service stays as it was. -/
theorem exists_changes_unanswered :
    let text : Element Double := .text ⟨"t", 0, 0, 10, 10, 0, 0⟩ Element.newText
    let arrow : Element Double := .shape ⟨"a", 0, 0, 10, 10, 0, 0⟩ .arrow Shape.blankArrow
    let restyled : Changes Double := [("style", .int 5)]
    let resized : Changes Double := [("width", .int (Int.pow 10 400))]
    let s := ofElements [text, arrow]
    text.Valid ∧ arrow.Valid ∧
      text.apply .counting restyled = (.error .styleExpected, .counting) ∧
      arrow.apply .counting resized = (.error .outOfRange, .counting) ∧
      s.answer ⟨.patch, ⟨["api", "elements", "t"], []⟩, .value (.obj restyled)⟩
        = s.fail (.edit .styleExpected) ∧
      s.answer ⟨.post, ⟨["api", "elements", "batch"], []⟩,
          .value (.obj [("updates", .obj [("a", .obj resized)])])⟩
        = s.fail (.edit .outOfRange) := by
  intro text arrow restyled resized s
  have hten : (0 : Double) ≤ 10 := by decide +kernel
  have hframe (id : String) : Frame.Valid (⟨id, 0, 0, 10, 10, 0, 0⟩ : Frame Double) :=
    ⟨hten, hten, Scalar.normalizeAngle_zero⟩
  have hstyle : text.stumble? restyled = some .styleExpected := rfl
  have hsize : arrow.stumble? resized = some .outOfRange := by decide +kernel
  have hupdate : s.board.update "t" restyled true = (.error .styleExpected, s.board) := rfl
  have happly : Element.applyEach (Batch.changesOf [("a", resized)]) s.board.ids s.board.elements
      = (some .outOfRange, [text, arrow], s.board.ids) := by
    have htext : Batch.changesOf [("a", resized)] text = none := rfl
    have harrow : Batch.changesOf [("a", resized)] arrow = some resized := rfl
    have hes : s.board.elements = [text, arrow] := rfl
    simp only [hes, Element.applyEach, htext, harrow, Element.apply_of_stumble? hsize]
  have hupdateAll : s.board.updateAll [("a", resized)] true = (.error .outOfRange, s.board) := by
    rw [Board.updateAll, if_neg (by decide), Board.applyBatch, happly]
    rfl
  refine ⟨.text (hframe "t"), .shape (hframe "a") (Shape.valid_of_curve_eq_zero rfl),
    Element.apply_of_stumble? hstyle _, Element.apply_of_stumble? hsize _, ?_, ?_⟩
  · rw [answer_update s rfl rfl, Service.update, hupdate]
    rfl
  · rw [answer_updateAll s rfl rfl rfl, Service.updateAll, hupdateAll]
    rfl

end Service

end Whiteboard
