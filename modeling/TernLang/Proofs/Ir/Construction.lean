import TernLang.Proofs.Ir.Builder

/-! The invariant of a function under construction. Every operation of the builder keeps it, as
long as code goes to a block that waits for its terminator. -/
namespace TernLang.Ir

open List

theorem append_subset_left {known known' rest : List Nat} (sub : known ⊆ known') :
    known ++ rest ⊆ known' ++ rest :=
  append_subset.mpr ⟨Subset.trans sub (subset_append_left ..), subset_append_right ..⟩

variable {block : Block} {slots : List Nat} {instr : Instruction} {term : Terminator}

theorem Block.Closed.mono {params : Nat} (closed : block.Closed params slots)
    (sub : slots ⊆ slots') :
    block.Closed params slots' where
  instructions k instr found val mem :=
    (closed.instructions k instr found val mem).mono (append_subset_left sub)
  terminator term found val mem :=
    (closed.terminator term found val mem).mono (append_subset_left sub)

theorem Block.Closed.push (closed : block.Closed params slots) (waiting : block.terminator = none)
    (usable : ∀ val ∈ instr.operands, val.Known params (slots ++ defined block.instructions)) :
    Block.Closed params slots { block with instructions := block.instructions ++ [instr] } where
  instructions k found there val mem := by
    simp only [getElem?_append] at there
    split at there
    · next small =>
      rw [take_append_of_le_length (Nat.le_of_lt small)]
      exact closed.instructions k found there val mem
    · next large =>
      rw [getElem?_singleton] at there
      split at there
      · next last =>
        cases there
        rw [take_left' (by omega)]
        exact usable val mem
      · contradiction
  terminator term found := by simp [waiting] at found

theorem Block.Closed.terminate (closed : block.Closed params slots)
    (usable : ∀ val ∈ term.operands, val.Known params (slots ++ defined block.instructions)) :
    Block.Closed params slots { block with terminator := some term } where
  instructions := closed.instructions
  terminator found same val mem := by
    cases same
    exact usable val mem

namespace Builder

/-- What holds of a function under construction that takes so many parameters. -/
structure Sound (params : Nat) (b : Builder) : Prop where
  front : b.function.labels.take 3 = plainLabels
  labels : b.function.labels.Nodup
  numbered : ∀ label ∈ b.function.labels, Numbered b.nextLabel label
  targets : ∀ i block, b.function.block? i = some block → ∀ term, block.terminator = some term →
    ∀ tgt ∈ term.targets, tgt < b.function.blocks.length
  returns : ∀ i block, b.function.block? i = some block → ∀ term, block.terminator = some term →
    term.isReturn → i = 2
  allocas : ∀ i block, b.function.block? i = some block → ∀ instr ∈ block.instructions,
    (instr.isAlloca ↔ i = 0)
  registers : b.function.registers.Nodup
  fresh : ∀ reg ∈ b.function.registers, reg < b.nextRegister
  closed : ∀ i block, b.function.block? i = some block → block.Closed params b.function.slots
  refused : b.refused = []

variable {params next : Nat} {b : Builder}

section
variable (sound : b.Sound params)
include sound

theorem Sound.positioned (idx : Nat) : (b.positioned idx).Sound params where
  front := sound.front
  labels := sound.labels
  numbered := sound.numbered
  targets := sound.targets
  returns := sound.returns
  allocas := sound.allocas
  registers := sound.registers
  fresh := sound.fresh
  closed := sound.closed
  refused := sound.refused

theorem Sound.three_le : 3 ≤ b.function.blocks.length := by
  have := congrArg length sound.front
  simp only [Function.labels, length_take, length_map, plainLabels, length_cons, length_nil] at this
  omega

theorem Sound.modify (found : b.function.block? i = some block)
    (label : ∀ block, (change block).label = block.label) (targets : ∀ term,
      (change block).terminator = some term → ∀ tgt ∈ term.targets, tgt < b.function.blocks.length)
    (returns : ∀ term, (change block).terminator = some term → term.isReturn → i = 2)
    (allocas : ∀ instr ∈ (change block).instructions, (instr.isAlloca ↔ i = 0))
    (registers : (b.modifyBlock i change).function.registers.Nodup)
    (fresh : ∀ reg ∈ (b.modifyBlock i change).function.registers, reg < next)
    (same : (b.modifyBlock i change).function.slots = slots) (sub : b.function.slots ⊆ slots)
    (closed : (change block).Closed params slots) :
    Sound params { b.modifyBlock i change with nextRegister := next } := by
  have labels : (b.modifyBlock i change).function.labels = b.function.labels := labels_modifyBlock label
  have count : (b.modifyBlock i change).function.blocks.length = b.function.blocks.length := length_modify ..
  have blocks : ∀ j other, (b.modifyBlock i change).function.block? j = some other →
      j = i ∧ other = change block ∨ b.function.block? j = some other := by
    intro j other there
    rw [block?_modifyBlock, Option.map_eq_some_iff] at there
    obtain ⟨old, there, rfl⟩ := there
    split
    · next here =>
      rw [← here, found] at there
      cases there
      exact .inl ⟨here.symm, rfl⟩
    · exact .inr there
  refine ⟨?_, ?_, ?_, ?_, ?_, ?_, registers, fresh, ?_, sound.refused⟩
  · exact (congrArg (take 3) labels).trans sound.front
  · exact labels.symm ▸ sound.labels
  · exact labels.symm ▸ sound.numbered
  · intro j other there
    rw [count]
    rcases blocks j other there with ⟨rfl, rfl⟩ | there
    · exact targets
    · exact sound.targets j other there
  · intro j other there
    rcases blocks j other there with ⟨rfl, rfl⟩ | there
    · exact returns
    · exact sound.returns j other there
  · intro j other there
    rcases blocks j other there with ⟨rfl, rfl⟩ | there
    · exact allocas
    · exact sound.allocas j other there
  · intro j other there
    rw [same]
    rcases blocks j other there with ⟨rfl, rfl⟩ | there
    · exact closed
    · exact (sound.closed j other there).mono sub

/-- Code for the current block: no slot, operands from before, at most the next register. -/
theorem Sound.push (here : b.Open b.current) (inside : b.current ≠ 0)
    (plain : instr.isAlloca = false) (usable : ∀ val ∈ instr.operands, b.Usable params val)
    (res : ∀ reg, instr.result? = some reg → reg = b.nextRegister ∧ reg < next)
    (le : b.nextRegister ≤ next) : (b.appended next [instr]).Sound params := by
  have perm := registers_appended here next [instr]
  obtain ⟨block, found, waiting⟩ := here
  refine sound.modify found (fun _ => rfl) (sound.targets _ block found) (sound.returns _ block found) ?_
    (perm.nodup_iff.mpr ?_) ?_ (slots_appended inside next _) (Subset.refl _) ?_
  · intro other mem
    rcases mem_append.mp mem with mem | mem
    · exact sound.allocas _ block found other mem
    · obtain rfl := mem_singleton.mp mem
      rw [plain]
      simp [inside]
  · cases defines : instr.result? with
    | none => simpa [defined, defines] using sound.registers
    | some reg =>
      obtain ⟨rfl, -⟩ := res reg defines
      simp only [defined, filterMap_cons, defines, filterMap_nil, singleton_append,
        nodup_cons]
      exact ⟨fun mem => Nat.lt_irrefl _ (sound.fresh _ mem), sound.registers⟩
  · intro reg mem
    rcases mem_append.mp (perm.mem_iff.mp mem) with mem | mem
    · obtain ⟨other, known, defines⟩ := mem_filterMap.mp mem
      obtain rfl := mem_singleton.mp known
      exact (res reg defines).2
    · exact Nat.lt_of_lt_of_le (sound.fresh reg mem) le
  · refine (sound.closed _ block found).push waiting fun val mem => ?_
    simpa [Usable, locals, found] using usable val mem

theorem Sound.withSlot (entry : b.Open 0) (ty : IrType) : (b.withSlot ty).Sound params := by
  have perm := registers_withSlot entry ty
  have slots := slots_withSlot entry ty
  obtain ⟨block, found, waiting⟩ := entry
  refine sound.modify found (fun _ => rfl) (sound.targets _ block found) (sound.returns _ block found) ?_
    (perm.nodup_iff.mpr ?_) ?_ slots (subset_append_left _ [b.nextRegister]) ?_
  · intro other mem
    rcases mem_append.mp mem with mem | mem
    · exact sound.allocas _ block found other mem
    · obtain rfl := mem_singleton.mp mem
      simp [Instruction.isAlloca]
  · exact nodup_cons.mpr ⟨fun mem => Nat.lt_irrefl _ (sound.fresh _ mem), sound.registers⟩
  · intro reg mem
    rcases mem_cons.mp (perm.mem_iff.mp mem) with rfl | mem
    · exact Nat.lt_succ_self _
    · exact Nat.lt_succ_of_lt (sound.fresh reg mem)
  · have closed := (sound.closed _ block found).mono (subset_append_left _ [b.nextRegister])
    exact closed.push waiting (by simp [Instruction.operands])

theorem Sound.withBlock (entry : b.Open 0) (known : hint ∈ hints) :
    (b.withBlock hint).Sound params := by
  have slots := slots_withBlock entry hint
  have labels : (b.withBlock hint).function.labels =
      b.function.labels ++ [hint ++ toString (b.nextLabel + 1)] := by
    simp [Builder.withBlock, Function.labels]
  have count : (b.withBlock hint).function.blocks.length = b.function.blocks.length + 1 := by
    simp [Builder.withBlock]
  have enough : 3 ≤ b.function.labels.length := by
    rw [Function.labels, length_map]
    exact sound.three_le
  refine ⟨?_, ?_, ?_, ?_, ?_, ?_, ?_, ?_, ?_, sound.refused⟩
  · rw [labels, take_append_of_le_length enough]
    exact sound.front
  · rw [labels, ← concat_eq_append, nodup_concat]
    exact ⟨fun mem => not_numbered_succ known _ (sound.numbered _ mem), sound.labels⟩
  · intro label mem
    rw [labels] at mem
    rcases mem_append.mp mem with mem | mem
    · exact (sound.numbered label mem).mono (Nat.le_succ _)
    · obtain rfl := mem_singleton.mp mem
      exact .inr ⟨hint, known, b.nextLabel + 1, Nat.le_refl _, rfl⟩
  · intro i block there term ends tgt mem
    rw [block?_withBlock] at there
    split at there
    · cases there
      contradiction
    · have := sound.targets i block there term ends tgt mem
      omega
  · intro i block there term ends
    rw [block?_withBlock] at there
    split at there
    · cases there
      contradiction
    · exact sound.returns i block there term ends
  · intro i block there instr mem
    rw [block?_withBlock] at there
    split at there
    · cases there
      contradiction
    · exact sound.allocas i block there instr mem
  · rw [registers_withBlock]
    exact sound.registers
  · rw [registers_withBlock]
    exact sound.fresh
  · intro i block there
    rw [slots]
    rw [block?_withBlock] at there
    split at there
    · cases there
      exact ⟨by simp, by simp⟩
    · exact sound.closed i block there

/-- The end of the current block. Only the third block may return. -/
theorem Sound.terminated (here : b.Open b.current)
    (usable : ∀ val ∈ term.operands, b.Usable params val)
    (targets : ∀ tgt ∈ term.targets, tgt < b.function.blocks.length)
    (returns : term.isReturn → b.current = 2) : (b.terminated term).Sound params := by
  have registers := registers_terminated b term
  obtain ⟨block, found, -⟩ := here
  refine sound.modify found (fun _ => rfl) ?_ ?_ (sound.allocas _ block found) (registers.symm ▸ sound.registers)
    (registers.symm ▸ sound.fresh) (slots_terminated b term) (Subset.refl _) ?_
  · rintro _ ⟨⟩
    exact targets
  · rintro _ ⟨⟩
    exact returns
  · refine (sound.closed _ block found).terminate fun val mem => ?_
    simpa [Usable, locals, found] using usable val mem

end

theorem Sound.ssaGraph (sound : b.Sound b.function.type.params.length) (finished : ∀ i, ¬ b.Open i)
    (last : ∀ block, b.function.block? 2 = some block → ∃ val, block.terminator = some (.ret val)) :
    b.function.SsaGraph where
  front := sound.front
  labels := sound.labels
  terminated i block found := by
    rw [Option.isSome_iff_ne_none]
    exact fun none => finished i ⟨block, found, none⟩
  targets := sound.targets
  returns i block found term ends := by
    refine ⟨sound.returns i block found term ends, ?_⟩
    rintro rfl
    obtain ⟨val, returns⟩ := last block found
    rw [returns] at ends
    cases ends
    rfl
  allocas := sound.allocas
  registers := sound.registers
  closed := sound.closed

end Builder
end TernLang.Ir
