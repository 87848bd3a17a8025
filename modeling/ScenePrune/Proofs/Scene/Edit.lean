import ScenePrune.Scene.Basic

/-! # What the edits of a scene do

An edit of a scene looks at what it needs before it changes anything, so one that fails leaves the scene as
it was. Each edit is one equation for what it answers and the scene that it leaves; what it makes of a scene
when it succeeds is read off the equation.
-/
namespace ScenePrune.Scene
variable (s : Scene) (node : Node) (id : NodeId) (f : Node → Node)
variable (type : TypeName) (kind : NodeKind) (parent? : Option NodeId)

theorem perform_insertM : (insertM node).perform s =
    if s.contains node.id then (.error (.duplicateNode node.id), s)
    else
      match node.parent? with
      | none => (.ok node.id, { s with nodes := s.nodes ++ [node], nextId := max s.nextId (node.id.toNat + 1) })
      | some parent =>
        if s.contains parent then
          (.ok node.id,
            { nodes := s.nodes ++ [node]
              nextId := max s.nextId (node.id.toNat + 1)
              childIndex := s.childIndex.upsert parent fun l => l.getD [] ++ [node.id] })
        else (.error (.missingParent node.id parent), s) := by
  simp only [insertM, Edit.perform_bind, Edit.perform_get, Edit.perform_ite, Edit.perform_throw]
  generalize s.contains node.id = known
  cases known with
  | true => rfl
  | false =>
    cases node.parent? with
    | none => rfl
    | some parent =>
      simp only [Edit.perform_bind, Edit.perform_get, Edit.perform_ite, Edit.perform_throw]
      generalize s.contains parent = present
      cases present <;> rfl

theorem perform_addNodeM : (addNodeM type kind parent?).perform s =
    if s.nextId < UInt32.size then (insertM { id := UInt32.ofNat s.nextId, type, kind, parent? }).perform s
    else (.error .idsExhausted, s) := by
  simp only [addNodeM, Edit.perform_bind, Edit.perform_get, Edit.perform_ite, Edit.perform_throw]

theorem perform_modifyNodeM : (modifyNodeM id f).perform s =
    if s.contains id then (.ok (), { s with nodes := s.nodes.map fun n => if n.id = id then f n else n })
    else (.error (.nodeNotFound id), s) := by
  simp only [modifyNodeM, Edit.perform_bind, Edit.perform_get, Edit.perform_ite, Edit.perform_throw]
  rfl

theorem perform_removeM : (removeM id).perform s =
    if !(s.children id).isEmpty then (.error (.hasChildren id), s)
    else
      match s.node? id with
      | none => (.error (.nodeNotFound id), s)
      | some node =>
        let siblings :=
          match node.parent? with
          | none => s.childIndex
          | some parent => s.childIndex.modify parent (·.filter (· ≠ id))
        (.ok (), { s with nodes := s.nodes.filter (·.id ≠ id), childIndex := siblings.erase id }) := by
  simp only [removeM, Edit.perform_bind, Edit.perform_get, Edit.perform_ite, Edit.perform_throw]
  generalize (!(s.children id).isEmpty) = parental
  cases parental with
  | true => rfl
  | false =>
    cases s.node? id with
    | none => rfl
    | some node =>
      simp only [Edit.perform_bind]
      generalize node.parent? = parent?
      cases parent? <;> rfl

section Failures

theorem keeps_insertM : (insertM node).Keeps := by
  intro s s' error h
  rw [perform_insertM] at h
  split at h
  case isTrue => exact (congrArg Prod.snd h).symm
  case isFalse =>
    cases hparent : node.parent? with
    | none => simp [hparent] at h
    | some parent =>
      simp only [hparent] at h
      split at h
      case isTrue => cases h
      case isFalse => exact (congrArg Prod.snd h).symm

theorem keeps_addNodeM : (addNodeM type kind parent?).Keeps := by
  intro s s' error h
  rw [perform_addNodeM] at h
  split at h
  case isTrue => exact keeps_insertM _ s s' error h
  case isFalse => exact (congrArg Prod.snd h).symm

theorem keeps_modifyNodeM : (modifyNodeM id f).Keeps := by
  intro s s' error h
  rw [perform_modifyNodeM] at h
  split at h
  case isTrue => cases h
  case isFalse => exact (congrArg Prod.snd h).symm

theorem keeps_removeM : (removeM id).Keeps := by
  intro s s' error h
  rw [perform_removeM] at h
  split at h
  case isTrue => exact (congrArg Prod.snd h).symm
  case isFalse =>
    split at h
    case h_1 => exact (congrArg Prod.snd h).symm
    case h_2 => cases h

end Failures

section Results

theorem insert_eq : s.insert node =
    if s.contains node.id then .error (.duplicateNode node.id)
    else
      match node.parent? with
      | none => .ok { s with nodes := s.nodes ++ [node], nextId := max s.nextId (node.id.toNat + 1) }
      | some parent =>
        if s.contains parent then
          .ok
            { nodes := s.nodes ++ [node]
              nextId := max s.nextId (node.id.toNat + 1)
              childIndex := s.childIndex.upsert parent fun l => l.getD [] ++ [node.id] }
        else .error (.missingParent node.id parent) := by
  rw [insert, Edit.result, perform_insertM]
  generalize s.contains node.id = known
  cases known with
  | true => rfl
  | false =>
    cases node.parent? with
    | none => rfl
    | some parent =>
      dsimp only
      generalize s.contains parent = present
      cases present <;> rfl

theorem addNode_eq : s.addNode type kind parent? =
    if s.nextId < UInt32.size then
      (s.insert { id := UInt32.ofNat s.nextId, type, kind, parent? }).map (UInt32.ofNat s.nextId, ·)
    else .error .idsExhausted := by
  rw [addNode, Edit.result, perform_addNodeM, insert_eq, perform_insertM]
  by_cases hlt : s.nextId < UInt32.size
  case neg => rw [if_neg hlt, if_neg hlt]
  rw [if_pos hlt, if_pos hlt]
  dsimp only
  generalize s.contains _ = known
  cases known with
  | true => rfl
  | false =>
    cases parent? with
    | none => rfl
    | some parent =>
      dsimp only
      generalize s.contains parent = present
      cases present <;> rfl

theorem modifyNode_eq : s.modifyNode id f =
    if s.contains id then .ok { s with nodes := s.nodes.map fun n => if n.id = id then f n else n }
    else .error (.nodeNotFound id) := by
  rw [modifyNode, Edit.result, perform_modifyNodeM]
  generalize s.contains id = present
  cases present <;> rfl

theorem remove_eq : s.remove id =
    if !(s.children id).isEmpty then .error (.hasChildren id)
    else
      match s.node? id with
      | none => .error (.nodeNotFound id)
      | some node =>
        let siblings :=
          match node.parent? with
          | none => s.childIndex
          | some parent => s.childIndex.modify parent (·.filter (· ≠ id))
        .ok { s with nodes := s.nodes.filter (·.id ≠ id), childIndex := siblings.erase id } := by
  rw [remove, Edit.result, perform_removeM]
  generalize (!(s.children id).isEmpty) = parental
  cases parental with
  | true => rfl
  | false => cases s.node? id <;> rfl

end Results

end ScenePrune.Scene
