import BuildAlign.Proofs.JsonSpelling
import BuildAlign.Proofs.OrderedMapLookup

/-! # Documents that are written and read back

The stack machine puts the tokens of a value together to that value, on top of whatever is on its
stack.  So a document that can be written is read back as it was; and what is read never has two
members of one name in an object. -/
namespace BuildAlign.JsonReader
open JsonValue (Everywhere Keyed Readable Writable)

section Assembly

/-- From where a value is expected, the tokens of this one lead to where it is done. -/
def Builds (v : JsonValue) : Prop := ∀ stack after,
  (tokensOf v ++ after).foldlM step ⟨.value, stack⟩ = after.foldlM step ⟨.done v, stack⟩

private theorem tokensOf_eq_cons (v : JsonValue) :
    ∃ t ts, tokensOf v = t :: ts ∧ t ≠ .closeArray := by
  cases v with
  | null => exact ⟨_, _, rfl, nofun⟩
  | bool b => exact ⟨_, _, rfl, nofun⟩
  | integer n => exact ⟨_, _, rfl, nofun⟩
  | double x => exact ⟨_, _, rfl, nofun⟩
  | text s => exact ⟨_, _, rfl, nofun⟩
  | array items => cases items <;> exact ⟨_, _, rfl, nofun⟩
  | object members => cases members <;> exact ⟨_, _, rfl, nofun⟩

theorem Builds.firstItem {v : JsonValue} (h : Builds v) (stack : List Frame) (after : List Token) :
    (tokensOf v ++ after).foldlM step ⟨.firstItem, stack⟩ =
      after.foldlM step ⟨.done v, .array [] :: stack⟩ := by
  rw [← h]
  obtain ⟨t, ts, ht, hn⟩ := tokensOf_eq_cons v
  have hs : step ⟨.firstItem, stack⟩ t = step ⟨.value, .array [] :: stack⟩ t := by
    cases t with
    | closeArray => exact absurd rfl hn
    | _ => rfl
  rw [ht, List.cons_append, List.foldlM_cons, List.foldlM_cons, hs]

private theorem builds_items {items : List JsonValue} (h : ∀ item ∈ items, Builds item)
    (before : List JsonValue)
    (v : JsonValue) (stack : List Frame) (after : List Token) :
    (itemTokens items ++ .closeArray :: after).foldlM step ⟨.done v, .array before :: stack⟩ =
      after.foldlM step ⟨.done (.array (before ++ v :: items)), stack⟩ := by
  induction items generalizing before v with
  | nil => rfl
  | cons item items ih =>
    have hi := h item List.mem_cons_self
    have hr := ih (fun item hm => h item (List.mem_cons_of_mem _ hm)) (before ++ [v]) item
    rw [List.append_assoc] at hr
    rw [itemTokens, List.append_assoc, List.cons_append, List.foldlM_cons]
    change (tokensOf item ++ (itemTokens items ++ .closeArray :: after)).foldlM step
      ⟨.value, .array (before ++ [v]) :: stack⟩ = _
    rw [hi, hr]
    rfl

private theorem builds_array {items : List JsonValue} (h : ∀ item ∈ items, Builds item) :
    Builds (.array items) := by
  intro stack after
  cases items with
  | nil => rfl
  | cons item items =>
    have hf :=
      (h item List.mem_cons_self).firstItem stack (itemTokens items ++ .closeArray :: after)
    have hr := builds_items (fun item hm => h item (List.mem_cons_of_mem _ hm)) [] item stack after
    rw [hr] at hf
    simpa [tokensOf, List.foldlM_cons, step, startValue] using hf

/-- A new name comes behind the others. -/
theorem put_between {before members : List (LooseText × JsonValue)}
    {name : LooseText} {v : JsonValue}
    (hn : ((before ++ (name, v) :: members).map Prod.fst).Nodup) :
    OrderedMap.put name v before = before ++ [(name, v)] := by
  rw [List.map_append] at hn
  refine OrderedMap.put_of_notMem (fun hm => ?_) v
  exact (List.nodup_append.1 hn).2.2 name hm name List.mem_cons_self rfl

private theorem builds_members {members : List (LooseText × JsonValue)}
    (h : ∀ member ∈ members, Builds member.2)
    (before : List (LooseText × JsonValue)) (name : LooseText) (v : JsonValue)
    (hn : ((before ++ (name, v) :: members).map Prod.fst).Nodup) (stack : List Frame)
    (after : List Token) :
    (memberTokens members ++ .closeObject :: after).foldlM step
      ⟨.done v, .object before name :: stack⟩ =
      after.foldlM step ⟨.done (.object (before ++ (name, v) :: members)), stack⟩ := by
  induction members generalizing before name v with
  | nil =>
    rw [← put_between hn]
    rfl
  | cons member members ih =>
    obtain ⟨name', v'⟩ := member
    have hput := put_between hn
    have hi := h (name', v') List.mem_cons_self
    have hr :=
      ih (fun m hm => h m (List.mem_cons_of_mem _ hm)) (before ++ [(name, v)]) name'
        v' (by simpa using hn)
    rw [List.append_assoc] at hr
    change (tokensOf v' ++ memberTokens members ++ .closeObject :: after).foldlM step
      ⟨.value, .object (OrderedMap.put name v before) name' :: stack⟩ = _
    rw [List.append_assoc, hi, hput, hr]
    rfl

private theorem builds_object {members : List (LooseText × JsonValue)}
    (hn : (members.map Prod.fst).Nodup)
    (h : ∀ member ∈ members, Builds member.2) : Builds (.object members) := by
  intro stack after
  cases members with
  | nil => rfl
  | cons member members =>
    obtain ⟨name, v⟩ := member
    have hv := h (name, v) List.mem_cons_self
    have hr := builds_members (fun m hm => h m (List.mem_cons_of_mem _ hm)) [] name v hn stack after
    have hf := hv (.object [] name :: stack) (memberTokens members ++ .closeObject :: after)
    rw [hr] at hf
    simpa [tokensOf, List.foldlM_cons, step, startValue] using hf

private theorem builds_value {v : JsonValue} (h : Everywhere Keyed v) : Builds v := by
  induction h with
  | @node v here below ih =>
    cases v with
    | array items => exact builds_array (JsonValue.forall_items.1 ih)
    | object members => exact builds_object here (JsonValue.forall_members.1 ih)
    | _ => exact fun stack after => rfl

private theorem assemble_tokensOf {v : JsonValue} (h : Everywhere Keyed v) :
    assemble (tokensOf v) = some v := by
  have hb := builds_value h [] []
  rw [List.append_nil, List.foldlM_nil] at hb
  rw [assemble, start, hb]
  rfl

end Assembly

section RoundTrip

/-- A document that can be written is read back as it was. -/
theorem read?_print {v : JsonValue} (hw : Everywhere Writable v) (hr : Everywhere Readable v) :
    ∃ text, (JsonPrinter.print v ++ .ofString "\n").encode = .ok text ∧ read? text = some v := by
  obtain ⟨cs, hp, hs⟩ := spells_value hw (hr.imp fun _ h => h.brief) 0
  have hend : tokens ['\n'] = some [] := by
    rw [tokens_space rfl, tokens_eq_some_iff, tokensBefore]
  have ht := hs ['\n'] [] (fun c hc => .inr (Option.some.inj hc).symm) hend
  have ho : JsonPrinter.print v ++ .ofString "\n" = .ofString (String.ofList (cs ++ ['\n'])) := by
    simp only [LooseText.ofString, String.toList_ofList, ofList_append, JsonPrinter.print, hp]
    rfl
  refine ⟨String.ofList (cs ++ ['\n']), by rw [ho, LooseText.encode_ofString], ?_⟩
  rw [read?, String.toList_ofList, ht, List.append_nil, Option.bind_some,
    assemble_tokensOf (hr.imp fun _ h => h.keyed)]

end RoundTrip

section Reading

/-- A token that brings no value in which a name occurs twice or an integer is too long. -/
def SoundToken (t : Token) : Prop := ∀ v, t = .scalar v → Everywhere Readable v

private theorem soundToken_of_leaf {v : JsonValue} (h : v.children = []) (hr : Readable v) :
    SoundToken (.scalar v) := by
  intro w he
  cases he
  exact (JsonValue.everywhere_leaf h).2 hr

private theorem digitsValue_lt {ds : List Char} (h : ∀ c ∈ ds, isDigit c = true) :
    digitsValue ds < 10 ^ ds.length := by
  induction ds using List.reverseRecOn with
  | nil => exact Nat.one_pos
  | append_singleton ds c ih =>
    have hlast : c.toNat - '0'.toNat < 10 := by
      have hc := h c (List.mem_append_right _ (List.mem_singleton_self c))
      simp only [isDigit, Bool.and_eq_true, decide_eq_true_eq] at hc
      have hnine : c.toNat ≤ '9'.toNat := hc.2
      exact Nat.sub_lt_left_of_lt_add hc.1 (Nat.lt_succ_of_le hnine)
    have hfront := ih fun d hd => h d (List.mem_append_left _ hd)
    rw [digitsValue, List.foldl_append, List.foldl_cons, List.foldl_nil, List.length_append,
      List.length_singleton, Nat.pow_succ, ← digitsValue]
    omega

/-- Few digits write a number of few digits. -/
theorem short_digitsValue {ds : List Char} (h : ∀ c ∈ ds, isDigit c = true)
    (hl : ds.length ≤ DecimalDigits.longest) : DecimalDigits.Short (digitsValue ds) :=
  DecimalDigits.short_iff.2 ((digitsValue_lt h).trans_le (Nat.pow_le_pow_right (by decide) hl))

private theorem sound_number? {negative : Bool} {cs rest : List Char} {v : JsonValue}
    (h : number? negative cs = some (v, rest)) : SoundToken (.scalar v) := by
  unfold number? at h
  split at h
  next whole behind hw =>
  have hdigits : ∀ c ∈ whole, isDigit c = true := by
    split at hw
    · cases hw
      exact List.forall_mem_singleton.2 rfl
    · cases hw
      exact fun c hc => List.mem_takeWhile_imp hc
  split at h
  · cases h
  · split at h
    simp only at h
    split at h
    · cases h
      exact soundToken_of_leaf rfl ⟨trivial, trivial⟩
    · split at h
      · split at h
        · cases h
        · next hl =>
          cases h
          have hs := short_digitsValue hdigits (Nat.not_lt.1 hl)
          refine soundToken_of_leaf rfl ⟨trivial, ?_⟩
          cases negative
          · exact hs
          · change DecimalDigits.Short (Int.natAbs (-_))
            rwa [Int.natAbs_neg]
      · cases h
        exact soundToken_of_leaf rfl ⟨trivial, trivial⟩

private theorem sound_word? {cs rest : List Char} {v : JsonValue} (h : word? cs = some (v, rest)) :
    SoundToken (.scalar v) := by
  obtain ⟨⟨w, value⟩, hf, he⟩ := Option.map_eq_some_iff.1 h
  cases he
  have hm := List.mem_of_find?_eq_some hf
  simp only [words, List.mem_cons, Prod.mk.injEq, List.not_mem_nil, or_false] at hm
  rcases hm with ⟨-, rfl⟩ | ⟨-, rfl⟩ | ⟨-, rfl⟩ | ⟨-, rfl⟩ | ⟨-, rfl⟩ | ⟨-, rfl⟩
  all_goals exact soundToken_of_leaf rfl ⟨trivial, trivial⟩

private theorem sound_token? {cs rest : List Char} {t : Token} (h : token? cs = some (t, rest)) :
    SoundToken t := by
  unfold token? at h
  split at h
  · cases h; nofun
  · cases h; nofun
  · cases h; nofun
  · cases h; nofun
  · cases h; nofun
  · cases h; nofun
  · obtain ⟨p, -, he⟩ := Option.map_eq_some_iff.1 h
    cases he; nofun
  · split at h
    · next hw => cases h; exact sound_word? hw
    · obtain ⟨p, hp, he⟩ := Option.map_eq_some_iff.1 h
      cases he
      split at hp
      · exact sound_number? hp
      · exact sound_number? hp

private theorem sound_tokensBefore (cs : List Char) : ∀ t ∈ (tokensBefore cs).1, SoundToken t := by
  fun_induction tokensBefore cs with
  | case1 => exact List.forall_mem_nil _
  | case2 c rest hs ih => exact ih
  | case3 => exact List.forall_mem_nil _
  | case4 c rest hs t behind ht hl ts left he ih =>
    rw [he] at ih
    exact List.forall_mem_cons.2 ⟨sound_token? ht, ih⟩
  | case5 => exact List.forall_mem_nil _

private theorem sound_tokens {cs : List Char} {ts : List Token} (h : tokens cs = some ts) :
    ∀ t ∈ ts, SoundToken t := by
  have hs := sound_tokensBefore cs
  rwa [tokens_eq_some_iff.1 h] at hs

/-- What is complete of a container. -/
def soFar : Frame → JsonValue
  | .array before => .array before
  | .object before _ => .object before

def SoundPhase : Phase → Prop
  | .key before | .colon before _ => Everywhere Readable (.object before)
  | .done v => Everywhere Readable v
  | _ => True

/-- No name occurs twice in what has been read. -/
structure SoundState (s : State) : Prop where
  phase : SoundPhase s.phase
  stack : ∀ f ∈ s.stack, Everywhere Readable (soFar f)

private theorem readable_put {before : List (LooseText × JsonValue)}
    {name : LooseText} {v : JsonValue}
    (hb : Everywhere Readable (.object before)) (hv : Everywhere Readable v) :
    Everywhere Readable (.object (OrderedMap.put name v before)) := by
  obtain ⟨hn, hm⟩ := JsonValue.everywhere_object.1 hb
  refine JsonValue.everywhere_object.2
    ⟨⟨OrderedMap.nodup_put hn.keyed, trivial⟩, fun member h => ?_⟩
  rcases OrderedMap.mem_put h with rfl | h
  · exact hv
  · exact hm member h

private theorem readable_append {before : List JsonValue} {v : JsonValue}
    (hb : Everywhere Readable (.array before))
    (hv : Everywhere Readable v) : Everywhere Readable (.array (before ++ [v])) := by
  obtain ⟨-, hm⟩ := JsonValue.everywhere_array.1 hb
  refine JsonValue.everywhere_array.2 ⟨⟨trivial, trivial⟩, fun item h => ?_⟩
  rcases List.mem_append.1 h with h | h
  · exact hm item h
  · exact List.mem_singleton.1 h ▸ hv

private theorem readable_empty :
    Everywhere Readable (.array []) ∧ Everywhere Readable (.object []) :=
  ⟨(JsonValue.everywhere_leaf rfl).2 ⟨trivial, trivial⟩,
    (JsonValue.everywhere_leaf rfl).2 ⟨List.nodup_nil, trivial⟩⟩

private theorem sound_startValue {stack : List Frame} {t : Token} {s : State} (ht : SoundToken t)
    (hs : ∀ f ∈ stack, Everywhere Readable (soFar f)) (h : startValue stack t = some s) :
    SoundState s := by
  cases t with
  | scalar v => cases h; exact ⟨ht v rfl, hs⟩
  | text s => cases h; exact ⟨(JsonValue.everywhere_leaf rfl).2 ⟨trivial, trivial⟩, hs⟩
  | openArray => cases h; exact ⟨trivial, hs⟩
  | openObject => cases h; exact ⟨trivial, hs⟩
  | _ => cases h

/-- A step of the machine keeps the state sound. -/
theorem sound_step {s s' : State} {t : Token} (hs : SoundState s) (ht : SoundToken t)
    (h : step s t = some s') :
    SoundState s' := by
  obtain ⟨phase, stack⟩ := s
  obtain ⟨hp, hf⟩ := hs
  simp only [step] at h
  split at h
  · exact sound_startValue ht hf h
  · cases h
    exact ⟨readable_empty.1, hf⟩
  · refine sound_startValue ht (fun f hm => ?_) h
    rcases List.mem_cons.1 hm with rfl | hm
    · exact readable_empty.1
    · exact hf f hm
  · cases h
    exact ⟨readable_empty.2, hf⟩
  · cases h
    exact ⟨readable_empty.2, hf⟩
  · cases h
    exact ⟨hp, hf⟩
  · cases h
    exact ⟨trivial, List.forall_mem_cons.2 ⟨hp, hf⟩⟩
  · cases h
    have hb := List.forall_mem_cons.1 hf
    exact ⟨trivial, List.forall_mem_cons.2 ⟨readable_append hb.1 hp, hb.2⟩⟩
  · cases h
    have hb := List.forall_mem_cons.1 hf
    exact ⟨readable_append hb.1 hp, hb.2⟩
  · cases h
    have hb := List.forall_mem_cons.1 hf
    exact ⟨readable_put hb.1 hp, hb.2⟩
  · cases h
    have hb := List.forall_mem_cons.1 hf
    exact ⟨readable_put hb.1 hp, hb.2⟩
  · cases h

private theorem sound_foldlM {ts : List Token} {s s' : State} (hs : SoundState s)
    (ht : ∀ t ∈ ts, SoundToken t)
    (h : ts.foldlM step s = some s') : SoundState s' := by
  induction ts generalizing s with
  | nil => cases h; exact hs
  | cons t ts ih =>
    rw [List.foldlM_cons] at h
    obtain ⟨next, hn, h⟩ := Option.bind_eq_some_iff.1 h
    exact ih (sound_step hs (ht t List.mem_cons_self) hn)
      (fun t hm => ht t (List.mem_cons_of_mem _ hm)) h

/-- What is read has no two members of one name, and no integer of more digits than may be read. -/
theorem readable_of_read? {text : String} {v : JsonValue} (h : read? text = some v) :
    Everywhere Readable v := by
  obtain ⟨ts, ht, ha⟩ := Option.bind_eq_some_iff.1 h
  unfold assemble at ha
  split at ha
  · next hf =>
    cases ha
    have hs : SoundState start := ⟨trivial, List.forall_mem_nil _⟩
    exact (sound_foldlM hs (sound_tokens ht) hf).phase
  · cases ha

end Reading

end BuildAlign.JsonReader
