import SeqPar.Machine.Basic
import SeqPar.Showcase.Detect
import SeqPar.Value.Arith
import SeqPar.Value.Functions

/-!
# The showcase programs

What runs in the place of the programs that `Showcase.Detect` recognises.  The training programs
and the recommendations take no input; the sorting and calculator programs read lines.

## Main definitions

* `trainNeuron`, `trainNetwork`, `recommend`, `sortThree`, `calculate` — the programs.
* `Showcase.run` — the program of a showcase.
-/

namespace SeqPar

open Exec

/-! ### A single neuron -/

/-- The weights of a single neuron with one input and a bias. -/
structure Neuron where
  /-- The weight of the input. -/
  weight : Float
  /-- The weight of the bias. -/
  biasWeight : Float

/-- The step by which weights follow the error. -/
def learningRate : Float := 0.01

/-- A number of rounds after which the training has ended: the error vanishes in round 51. -/
def trainingRounds : Nat := 1000

/-- Rounds of training, from the given one on, until the output is the desired zero. -/
def trainRounds : (rounds iteration : Nat) → Neuron → Exec Unit
  | 0, _, _ => return ()
  | rounds + 1, iteration, neuron => do
    writeLine "#### Iteração: "
    writeValues [.int iteration]
    writeLine "Peso: "
    writeValues [.float neuron.weight]
    let fires := decide (0 ≤ neuron.weight + neuron.biasWeight)
    let result : Int := if fires then 1 else 0
    writeValues [.int result]
    writeLine "Saída: "
    writeValues [.int result]
    writeLine "Erro: "
    writeValues [.int (-result)]
    if fires then
      let next : Neuron :=
        { weight := neuron.weight + learningRate * (-1)
          biasWeight := neuron.biasWeight + learningRate * (-1) }
      writeLine "Peso do bias: "
      writeValues [.float next.biasWeight]
      trainRounds rounds (iteration + 1) next

/-- Trains a single neuron to answer one with zero. -/
def trainNeuron : Exec Unit := do
  writeLine "Entrada: "
  writeLine "1"
  writeLine "Desejado: "
  writeLine "0"
  trainRounds trainingRounds 1 { weight := 0.5, biasWeight := 0.5 }
  writeLine "Parabéns!!! A Rede de um Neurônio Aprendeu"
  writeLine "Valor desejado: "
  writeLine "0"

/-! ### A small network -/

/-- The logistic function. -/
def sigmoid (x : Float) : Float :=
  1 / (1 + Float.exp (-x))

/-- The derivative of the logistic function, in terms of its value. -/
def sigmoidSlope (y : Float) : Float :=
  y * (1 - y)

/-- The weights of one hidden cell: from the two inputs, to the output, and its bias. -/
structure HiddenCell where
  /-- The weight of the first input. -/
  first : Float
  /-- The weight of the second input. -/
  second : Float
  /-- The weight of the cell at the output. -/
  toOutput : Float
  /-- The bias. -/
  bias : Float

/-- A network of three hidden cells and one output. -/
structure SmallNetwork where
  /-- The first hidden cell. -/
  cell0 : HiddenCell
  /-- The second hidden cell. -/
  cell1 : HiddenCell
  /-- The third hidden cell. -/
  cell2 : HiddenCell
  /-- The bias of the output. -/
  bias : Float

/-- The network before training. -/
def SmallNetwork.initial : SmallNetwork :=
  { cell0 := { first := 0.1, second := 0.4, toOutput := 0.7, bias := 0.1 }
    cell1 := { first := 0.2, second := 0.5, toOutput := 0.8, bias := 0.1 }
    cell2 := { first := 0.3, second := 0.6, toOutput := 0.9, bias := 0.1 }
    bias := 0.1 }

/-- The step by which the weights of the network follow the error. -/
def networkRate : Float := 0.2

/-- The answer of a hidden cell to two inputs. -/
def HiddenCell.answer (c : HiddenCell) (in0 in1 : Float) : Float :=
  sigmoid (in0 * c.first + in1 * c.second + c.bias)

/-- A hidden cell after it has learned, from its answer and the slope of the output. -/
def HiddenCell.learn (c : HiddenCell) (in0 in1 answer slope : Float) : HiddenCell :=
  let own := slope * c.toOutput * sigmoidSlope answer
  { first := c.first + networkRate * in0 * own
    second := c.second + networkRate * in1 * own
    toOutput := c.toOutput + networkRate * answer * slope
    bias := c.bias + networkRate * own }

/-- One epoch on the inputs one and zero, with the expected output one: the error, the output and
the network that has learned. -/
def SmallNetwork.epoch (n : SmallNetwork) : Float × Float × SmallNetwork :=
  let h0 := n.cell0.answer 1 0
  let h1 := n.cell1.answer 1 0
  let h2 := n.cell2.answer 1 0
  let out :=
    sigmoid (h0 * n.cell0.toOutput + h1 * n.cell1.toOutput + h2 * n.cell2.toOutput + n.bias)
  let error := 1 - out
  let slope := error * sigmoidSlope out
  (error, out,
    { cell0 := n.cell0.learn 1 0 h0 slope
      cell1 := n.cell1.learn 1 0 h1 slope
      cell2 := n.cell2.learn 1 0 h2 slope
      bias := n.bias + networkRate * slope })

/-- Epochs of training, from the given one on; every thousandth is reported.  The last output is
passed along. -/
def trainEpochs : (epochs epoch : Nat) → Float → SmallNetwork → Exec Float
  | 0, _, out, _ => return out
  | epochs + 1, epoch, _, n => do
    let (error, out, next) := n.epoch
    if epoch % 1000 = 0 then
      writeLine ("Época " ++ toString epoch ++ ", Erro: " ++ Number.writeFloat error ++
        ", Saída: " ++ Number.writeFloat out)
    trainEpochs epochs (epoch + 1) out next

/-- Trains a small network on one case of the exclusive disjunction. -/
def trainNetwork : Exec Unit := do
  let out ← trainEpochs 10000 1 0 .initial
  writeLine "Input: [1, 0], Predicted Output: "
  writeValues [.float out]

/-! ### Recommendations -/

/-- The number of products that were bought. -/
def boughtProducts : Nat := 4

/-- The products that may be recommended. -/
def recommendable : List String :=
  ["Laptop", "Tablet", "Camisa", "Geladeira", "Fantasia"]

/-- The sum of the given number of equal parts, each at half weight, and a bias of one half. -/
def halfWeighted (parts : Nat) (x : Float) : Float :=
  (List.replicate (parts - 1) (x * 0.5)).foldl (· + ·) (x * 0.5) + 0.5

/-- The score of a product, through a layer of four cells. -/
def productScore : Float :=
  let hidden := halfWeighted boughtProducts 1
  let answer := if 0 < hidden then hidden else 0
  sigmoid (halfWeighted 4 answer)

/-- Recommends the products with a score above one half. -/
def recommend : Exec Unit :=
  if 0.5 < productScore then recommendable.forM writeLine else return ()

/-! ### Sorting -/

/-- Reads a number; a line that spells none stands for the given one. -/
def readNumber (prompt : String) (otherwise : Nat) : Exec Value := do
  writeLine prompt
  match spelledNumber? (← readLine) with
  | some number => return number.toValue
  | none =>
    writeLine ("Valor inválido. Usando " ++ toString otherwise ++ ".")
    return .int otherwise

/-- Whether a number is at most another. -/
def atMost (a b : Value) : Bool :=
  (a.compare .le b).toOption.getD false

/-- The least of three numbers. -/
def least (a b c : Value) : Value :=
  if atMost a b && atMost a c then a else if atMost b a && atMost b c then b else c

/-- The greatest of three numbers. -/
def greatest (a b c : Value) : Value :=
  if atMost b a && atMost c a then a else if atMost a b && atMost c b then b else c

/-- The first of three numbers that is neither the least nor the greatest, or the last. -/
def middle (a b c low high : Value) : Value :=
  if !a.same low && !a.same high then a
  else if !b.same low && !b.same high then b
  else c

/-- Reads three numbers and writes them in order. -/
def sortThree : Exec Unit := do
  writeLine "Insira 3 números:"
  let a ← readNumber "Digite o primeiro número:" 1
  let b ← readNumber "Digite o segundo número:" 2
  let c ← readNumber "Digite o terceiro número:" 3
  writeLine "Vetor original:"
  writeValues [a]
  writeValues [b]
  writeValues [c]
  let low := least a b c
  let high := greatest a b c
  writeLine "Vetor ordenado:"
  writeValues [low]
  writeValues [middle a b c low high]
  writeValues [high]

/-! ### Calculating -/

/-- Reads a double; a line that spells none stands for zero. -/
def readOperand (prompt : String) : Exec Numeric := do
  writeLine prompt
  match Number.readFloat? (← readLine) with
  | some x => return .float x
  | none =>
    writeLine "Valor inválido. Usando 0."
    return .int 0

/-- Reads an operator and two numbers and writes the result. -/
def calculate : Exec Unit := do
  writeLine "Digite a operação: +, -, *, /"
  let operator ← readLine
  let a ← readOperand "Digite o primeiro valor:"
  let b ← readOperand "Digite o segundo valor:"
  let result ←
    if ["+", "-", "*", "/"].contains operator then
      match Numeric.operate operator a b with
      | .ok number => pure number.toValue
      | .error _ => do
        writeLine "Erro: Divisão por zero."
        pure (Value.text "Erro")
    else do
      writeLine "Operação inválida."
      pure (Value.text "Operação inválida")
  writeLine "Resultado:"
  writeValues [result]

/-- The program of a showcase. -/
def Showcase.run : Showcase → Exec Unit
  | .perceptron => trainNeuron
  | .xor => trainNetwork
  | .recommender => recommend
  | .sorting => sortThree
  | .calculator => calculate

end SeqPar
