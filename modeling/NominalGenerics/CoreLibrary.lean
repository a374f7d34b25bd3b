import NominalGenerics.ClassModel.Load

/-!
# The core library

The declarations every class model starts from: boxed primitives, strings, enumerations, and the
collection interfaces and classes. The root type is there already.
-/

namespace NominalGenerics

def coreModel : ClassModel := { types := [
  { name := "GroovyObject", isInterface := true },
  { name := "Serializable", isInterface := true },
  { name := "Cloneable", isInterface := true },
  { name := "RandomAccess", isInterface := true },
  { name := "CharSequence", isInterface := true },
  { name := "Comparable", isInterface := true, params := ["T"],
    methods := [
      { name := "compareTo", params := ["T"], returns := "Integer" }] },
  { name := "Comparator", isInterface := true, params := ["T"],
    methods := [
      { name := "compare", params := ["T", "T"], returns := "Integer" }] },
  { name := "Iterator", isInterface := true, params := ["E"],
    methods := [
      { name := "next", returns := "E" }] },
  { name := "Iterable", isInterface := true, params := ["T"],
    methods := [
      { name := "iterator", returns := "Iterator<T>" }] },
  { name := "Collection", isInterface := true, params := ["E"], extended := ["Iterable<E>"],
    methods := [
      { name := "add", params := ["E"], returns := "Boolean" },
      { name := "addAll", params := ["Collection<? extends E>"], returns := "Boolean" },
      { name := "toArray", typeParams := ["T"], params := ["T[]"], returns := "T[]" }] },
  { name := "List", isInterface := true, params := ["E"], extended := ["Collection<E>"],
    methods := [
      { name := "get", params := ["Integer"], returns := "E" },
      { name := "subList", params := ["Integer", "Integer"], returns := "List<E>" },
      { name := "sort", params := ["Comparator<? super E>"] }] },
  { name := "Set", isInterface := true, params := ["E"], extended := ["Collection<E>"] },
  { name := "Queue", isInterface := true, params := ["E"], extended := ["Collection<E>"],
    methods := [
      { name := "peek", returns := "E" }] },
  { name := "Deque", isInterface := true, params := ["E"], extended := ["Queue<E>"] },
  { name := "Map", isInterface := true, params := ["K", "V"],
    methods := [
      { name := "get", params := ["Object"], returns := "V" },
      { name := "put", params := ["K", "V"], returns := "V" },
      { name := "keySet", returns := "Set<K>" },
      { name := "values", returns := "Collection<V>" },
      { name := "getOrDefault", params := ["Object", "V"], returns := "V" }] },
  { name := "Number", implemented := ["Serializable"] },
  { name := "Integer", extended := ["Number"], implemented := ["Comparable<Integer>"] },
  { name := "Long", extended := ["Number"], implemented := ["Comparable<Long>"] },
  { name := "Short", extended := ["Number"], implemented := ["Comparable<Short>"] },
  { name := "Double", extended := ["Number"], implemented := ["Comparable<Double>"] },
  { name := "Boolean", implemented := ["Serializable", "Comparable<Boolean>"] },
  { name := "String", implemented := ["Serializable", "Comparable<String>", "CharSequence"] },
  { name := "Enum", params := ["E extends Enum<E>"],
    implemented := ["Comparable<E>", "Serializable"] },
  { name := "AbstractCollection", params := ["E"], implemented := ["Collection<E>"] },
  { name := "AbstractList", params := ["E"],
    extended := ["AbstractCollection<E>"], implemented := ["List<E>"] },
  { name := "ArrayList", params := ["E"],
    extended := ["AbstractList<E>"],
    implemented := ["List<E>", "RandomAccess", "Cloneable", "Serializable"] },
  { name := "LinkedList", params := ["E"],
    extended := ["AbstractList<E>"],
    implemented := ["List<E>", "Deque<E>", "Cloneable", "Serializable"] },
  { name := "AbstractSet", params := ["E"],
    extended := ["AbstractCollection<E>"], implemented := ["Set<E>"] },
  { name := "HashSet", params := ["E"],
    extended := ["AbstractSet<E>"], implemented := ["Set<E>", "Cloneable", "Serializable"] },
  { name := "AbstractMap", params := ["K", "V"], implemented := ["Map<K, V>"] },
  { name := "HashMap", params := ["K", "V"],
    extended := ["AbstractMap<K, V>"], implemented := ["Map<K, V>", "Cloneable", "Serializable"] },
  { name := "Collections",
    methods := [
      { name := "max", typeParams := ["T extends Object & Comparable<? super T>"],
        params := ["Collection<? extends T>"], returns := "T" }] }] }

def Library.core : Library :=
  match Library.root.load coreModel with
  | .ok l => l
  | .error _ => .root

end NominalGenerics
