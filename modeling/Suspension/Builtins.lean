import Suspension.Assembly.Parser

/-!
# Classes of the machine

The classes that every class path holds without anyone adding them: the root, strings, throwables,
threads and reflection in the core package, and the classes of the coroutine protocol.  They are
written in assembler text like any other class; a method marked `native` is supplied by the machine.
-/

namespace Suspension

namespace Builtins

/-- The root of all classes. -/
def objectSource : Text := r#"
(class "core/Object"
  (flags public)
  (method "<init>" "()V" (flags public) (code return))
  (method "hashCode" "()I" (flags public native))
  (method "toString" "()Lcore/String;" (flags public native))
  (method "equals" "(Lcore/Object;)Z" (flags public)
    (code
      aload 0
      aload 1
      if_acmpne $ne
      iconst 1
      ireturn
    $ne:
      iconst 0
      ireturn))
  (method "wait" "()V" (flags public final native))
  (method "wait" "(J)V" (flags public final native))
  (method "wait" "(JI)V" (flags public final native))
  (method "notify" "()V" (flags public final native)))
"#

/-- Strings. -/
def stringSource : Text := r#"
(class "core/String"
  (flags public final)
  (method "length" "()I" (flags public native))
  (method "concat" "(Lcore/String;)Lcore/String;" (flags public native))
  (method "equals" "(Lcore/Object;)Z" (flags public native))
  (method "hashCode" "()I" (flags public native))
  (method "toString" "()Lcore/String;" (flags public) (code aload 0 areturn))
  (method "valueOf" "(I)Lcore/String;" (flags public static native))
  (method "valueOf" "(J)Lcore/String;" (flags public static native))
  (method "valueOf" "(F)Lcore/String;" (flags public static native))
  (method "valueOf" "(D)Lcore/String;" (flags public static native))
  (method "valueOf" "(Lcore/Object;)Lcore/String;" (flags public static native)))
"#

/-- What strings are put together with. -/
def builderSource : Text := r#"
(class "core/StringBuilder"
  (flags public final)
  (method "<init>" "()V" (flags public native))
  (method "append" "(Lcore/String;)Lcore/StringBuilder;" (flags public native))
  (method "append" "(Lcore/Object;)Lcore/StringBuilder;" (flags public native))
  (method "append" "(I)Lcore/StringBuilder;" (flags public native))
  (method "append" "(J)Lcore/StringBuilder;" (flags public native))
  (method "append" "(F)Lcore/StringBuilder;" (flags public native))
  (method "append" "(D)Lcore/StringBuilder;" (flags public native))
  (method "toString" "()Lcore/String;" (flags public native)))
"#

/-- Printing. -/
def systemSource : Text := r#"
(class "core/System"
  (flags public final)
  (method "print" "(Lcore/Object;)V" (flags public static native))
  (method "println" "(Lcore/Object;)V" (flags public static native))
  (method "println" "(I)V" (flags public static native))
  (method "println" "(J)V" (flags public static native))
  (method "println" "(F)V" (flags public static native))
  (method "println" "(D)V" (flags public static native)))
"#

/-- The class of everything that can be thrown. -/
def throwableSource : Text := r#"
(class "core/Throwable"
  (flags public)
  (field "message" "Lcore/String;")
  (field "cause" "Lcore/Throwable;")
  (method "<init>" "()V" (flags public)
    (code
      aload 0
      invokespecial "core/Object" "<init>" "()V"
      return))
  (method "<init>" "(Lcore/String;)V" (flags public)
    (code
      aload 0
      invokespecial "core/Object" "<init>" "()V"
      aload 0
      aload 1
      putfield "core/Throwable" "message" "Lcore/String;"
      return))
  (method "<init>" "(Lcore/String;Lcore/Throwable;)V" (flags public)
    (code
      aload 0
      aload 1
      invokespecial "core/Throwable" "<init>" "(Lcore/String;)V"
      aload 0
      aload 2
      putfield "core/Throwable" "cause" "Lcore/Throwable;"
      return))
  (method "getMessage" "()Lcore/String;" (flags public)
    (code
      aload 0
      getfield "core/Throwable" "message" "Lcore/String;"
      areturn))
  (method "getCause" "()Lcore/Throwable;" (flags public)
    (code
      aload 0
      getfield "core/Throwable" "cause" "Lcore/Throwable;"
      areturn))
  (method "toString" "()Lcore/String;" (flags public native)))
"#

/-- Threads and locks. -/
def threadSource : Text := r#"
(class "core/Thread"
  (flags public)
  (method "<init>" "()V" (flags public)
    (code
      aload 0
      invokespecial "core/Object" "<init>" "()V"
      return))
  (method "sleep" "(J)V" (flags public static native))
  (method "sleep" "(JI)V" (flags public static native))
  (method "join" "()V" (flags public native))
  (method "join" "(J)V" (flags public native))
  (method "join" "(JI)V" (flags public native)))

(class "core/concurrent/Lock"
  (flags public interface abstract)
  (method "lock" "()V" (flags public abstract))
  (method "lockInterruptibly" "()V" (flags public abstract))
  (method "unlock" "()V" (flags public abstract)))
"#

/-- Methods as objects. -/
def reflectionSource : Text := r#"
(class "core/reflect/Method"
  (flags public final)
  (method "lookup" "(Lcore/String;Lcore/String;Lcore/String;)Lcore/reflect/Method;" (flags public static native))
  (method "getName" "()Lcore/String;" (flags public native))
  (method "invoke" "(Lcore/Object;[Lcore/Object;)Lcore/Object;" (flags public native)
    (throws "core/reflect/InvocationTargetException")))
"#

/-- The frame stack. -/
def stackSource : Text := r#"
(class "coro/Stack"
  (flags public final)
  (field "SUSPEND" "Lcoro/SuspendExecution;" public static final)
  (method "<clinit>" "()V" (flags static)
    (code
      new "coro/SuspendExecution"
      dup
      invokespecial "coro/SuspendExecution" "<init>" "()V"
      putstatic "coro/Stack" "SUSPEND" "Lcoro/SuspendExecution;"
      return))
  (method "getStack" "()Lcoro/Stack;" (flags public static native))
  (method "nextMethodEntry" "()I" (flags public native))
  (method "pushMethod" "(III)V" (flags public native))
  (method "popMethod" "()V" (flags public native))
  (method "pushInt" "(ILcoro/Stack;I)V" (flags public static native))
  (method "pushLong" "(JLcoro/Stack;I)V" (flags public static native))
  (method "pushFloat" "(FLcoro/Stack;I)V" (flags public static native))
  (method "pushDouble" "(DLcoro/Stack;I)V" (flags public static native))
  (method "pushObject" "(Lcore/Object;Lcoro/Stack;I)V" (flags public static native))
  (method "getInt" "(I)I" (flags public native))
  (method "getLong" "(I)J" (flags public native))
  (method "getFloat" "(I)F" (flags public native))
  (method "getDouble" "(I)D" (flags public native))
  (method "getObject" "(I)Lcore/Object;" (flags public native)))
"#

/-- Coroutines and what they run. -/
def coroutineSource : Text := r#"
(class "coro/SuspendableRunnable"
  (flags public interface abstract)
  (method "run" "()V" (flags public abstract) (throws "coro/SuspendExecution")))

(class "coro/Instrumented"
  (flags public interface abstract))

(class "coro/Coroutine"
  (flags public)
  (method "<init>" "(Lcoro/SuspendableRunnable;)V" (flags public native))
  (method "<init>" "(Lcoro/SuspendableRunnable;I)V" (flags public native))
  (method "run" "()V" (flags public native))
  (method "getState" "()Lcore/String;" (flags public native))
  (method "yield" "()V" (flags public static native) (throws "coro/SuspendExecution"))
  (method "reflectInvoke" "(Lcore/reflect/Method;Lcore/Object;[Lcore/Object;)Lcore/Object;" (flags public static native)
    (throws "coro/SuspendExecution" "core/reflect/InvocationTargetException")))
"#

/-- The classes that are not merely exceptions. -/
def coreSource : Text :=
  objectSource ++ stringSource ++ builderSource ++ systemSource ++ throwableSource ++ threadSource
    ++ reflectionSource ++ stackSource ++ coroutineSource

/-- The exceptions with only the standard constructors, and what they extend, parents first. -/
def exceptions : List (Text × Text) :=
  [("core/Exception", "core/Throwable"),
   ("core/Error", "core/Throwable"),
   ("core/RuntimeException", "core/Exception"),
   ("core/InterruptedException", "core/Exception"),
   ("core/NullPointerException", "core/RuntimeException"),
   ("core/ArithmeticException", "core/RuntimeException"),
   ("core/ClassCastException", "core/RuntimeException"),
   ("core/ArrayIndexOutOfBoundsException", "core/RuntimeException"),
   ("core/NegativeArraySizeException", "core/RuntimeException"),
   ("core/IllegalStateException", "core/RuntimeException"),
   ("core/IllegalArgumentException", "core/RuntimeException"),
   ("core/UnsupportedOperationException", "core/RuntimeException"),
   ("core/StackOverflowError", "core/Error"),
   ("core/reflect/InvocationTargetException", "core/Exception"),
   ("coro/SuspendExecution", "core/Exception")]

/-- A constructor that hands its `params` parameters to the same constructor of the superclass. -/
def constructorSource (super : Text) (params : Nat) (desc : Text) : Text :=
  Text.ofString "  (method \"<init>\" " ++ Quoted.encode desc
    ++ Text.ofString " (flags public) (code aload 0"
    ++ (List.range params).flatMap (fun i => Text.ofString " aload " ++ Text.ofNat (i + 1))
    ++ Text.ofString " invokespecial " ++ Quoted.encode super ++ Text.ofString " \"<init>\" "
    ++ Quoted.encode desc ++ Text.ofString " return))\n"

/-- An exception with the three standard constructors. -/
def exceptionSource (name super : Text) : Text :=
  Text.ofString "(class " ++ Quoted.encode name ++ Text.ofString " (super " ++ Quoted.encode super
    ++ Text.ofString ") (flags public)\n"
    ++ constructorSource super 0 "()V" ++ constructorSource super 1 "(Lcore/String;)V"
    ++ constructorSource super 2 "(Lcore/String;Lcore/Throwable;)V" ++ Text.ofString ")\n"

/-- The text of all classes. -/
def source : Text := coreSource ++ exceptions.flatMap fun (name, super) => exceptionSource name super

/-- **The classes of the machine.** -/
def classes : List Class := (Assembly.classes source).toOption.getD []

/-- Their encodings, by name. -/
def encoded : List (Text × Bytes) :=
  classes.filterMap fun c => (c.encode.toOption).map fun data => (c.name, data)

/-- Their names, in order. -/
def names : List Text := Text.sort (classes.map (·.name))

end Builtins

end Suspension
